import DigitalSystems.Vga.WriteMap
import Mathlib.Data.List.GetD

/-!
# The text driver

The byte stores of `text_mode_vga_color.c`, their way over the bus, and the screen
they leave: each cell shows the last call that covers it.
-/

namespace DigitalSystems.Vga

namespace Driver

def columns : Nat := 80

def rows : Nat := 30

/-- A store of one byte, `vga_ctrl->VRAM[offset] = value`. -/
structure Store where
  offset : Nat
  value : BitVec 8
  deriving DecidableEq, Repr

def textVGAColorClr : List Store :=
  (List.range (rows * columns * 2)).map fun i => { offset := i, value := 0x00#8 }

/-- The loop of `textVGADrawColorText` from character `i` on; a zero ends it. -/
def drawLoop (x y : Nat) (background foreground : BitVec 8) :
    Nat → List (BitVec 8) → List Store
  | _, [] => []
  | i, character :: str =>
      if character = 0#8 then []
      else
        { offset := (y * columns + x + i) * 2, value := foreground <<< 4 ||| background } ::
        { offset := (y * columns + x + i) * 2 + 1, value := character } ::
        drawLoop x y background foreground (i + 1) str

structure TextCall where
  str : List (BitVec 8)
  x : Nat
  y : Nat
  background : BitVec 8
  foreground : BitVec 8

def textVGADrawColorText (call : TextCall) : List Store :=
  drawLoop call.x call.y call.background call.foreground 0 call.str

/-- A call that stays on the screen. -/
structure TextCall.Valid (call : TextCall) : Prop where
  row : call.y < rows
  fits : call.x + call.str.length ≤ columns
  ascii : ∀ character ∈ call.str, 1 ≤ character.toNat ∧ character.toNat ≤ 127
  background : call.background.toNat < 16
  foreground : call.foreground.toNat < 16

def TextCall.Covers (call : TextCall) (column row : Nat) : Prop :=
  call.y = row ∧ call.x ≤ column ∧ column < call.x + call.str.length

instance (call : TextCall) (column row : Nat) : Decidable (call.Covers column row) :=
  inferInstanceAs (Decidable (_ ∧ _ ∧ _))

def program (calls : List TextCall) : List Store :=
  textVGAColorClr ++ calls.flatMap textVGADrawColorText

def lastCall (calls : List TextCall) (column row : Nat) : Option TextCall :=
  Clocked.latest? (fun call => if call.Covers column row then some call else none) calls

def storedAt (offset : Nat) (store : Store) : Option (BitVec 8) :=
  if store.offset = offset then some store.value else none

def TextCall.cellByte (call : TextCall) (index half : Nat) : BitVec 8 :=
  if half = 0 then call.foreground <<< 4 ||| call.background else call.str.getD index 0#8

section Stores

theorem storedAt_pair (x y : Nat) (background foreground character : BitVec 8)
    (i cell half : Nat) (low : half < 2) :
    (storedAt (cell * 2 + half)
        { offset := (y * columns + x + i) * 2 + 1, value := character }).or
      (storedAt (cell * 2 + half)
        { offset := (y * columns + x + i) * 2
          value := foreground <<< 4 ||| background }) =
      if y * columns + x + i = cell then
        some (if half = 0 then foreground <<< 4 ||| background else character)
      else none := by
  simp only [storedAt]
  generalize y * columns + x + i = first
  rcases Nat.lt_succ_iff_lt_or_eq.mp low with zero | rfl
  · obtain rfl : half = 0 := Nat.lt_one_iff.mp zero
    rw [if_neg (by omega)]
    by_cases here : first = cell
    · simp [here]
    · rw [if_neg (by omega), if_neg here]
      rfl
  · by_cases here : first = cell
    · simp [here]
    · rw [if_neg (by omega), if_neg (by omega), if_neg here]
      rfl

theorem latest_drawLoop (x y : Nat) (background foreground : BitVec 8)
    (str : List (BitVec 8)) (nonzero : ∀ c ∈ str, c ≠ 0#8) (i cell half : Nat)
    (low : half < 2) :
    Clocked.latest? (storedAt (cell * 2 + half))
        (drawLoop x y background foreground i str) =
      if y * columns + x + i ≤ cell ∧ cell < y * columns + x + i + str.length then
        some (if half = 0 then foreground <<< 4 ||| background
          else str.getD (cell - (y * columns + x + i)) 0#8)
      else none := by
  induction str generalizing i with
  | nil =>
      rw [if_neg (by simp only [List.length_nil]; omega)]
      rfl
  | cons character str inductionHypothesis =>
      have rest := inductionHypothesis
        (fun c membership => nonzero c (List.mem_cons_of_mem _ membership)) (i + 1)
      rw [drawLoop, if_neg (nonzero character List.mem_cons_self), Clocked.latest?_cons,
        Clocked.latest?_cons, Option.or_assoc, storedAt_pair _ _ _ _ _ _ _ _ low, rest,
        ← Nat.add_assoc, List.length_cons]
      generalize y * columns + x + i = first
      by_cases here : first = cell
      · subst here
        have before : ¬ (first + 1 ≤ first ∧ first < first + 1 + str.length) := by omega
        have covered : first ≤ first ∧ first < first + (str.length + 1) := by omega
        rw [if_neg before, if_pos covered, if_pos rfl, Nat.sub_self]
        rfl
      · rw [if_neg here, Option.or_none]
        by_cases inside : first + 1 ≤ cell ∧ cell < first + 1 + str.length
        · have covered : first ≤ cell ∧ cell < first + (str.length + 1) := by omega
          have index : cell - first = cell - (first + 1) + 1 := by omega
          rw [if_pos inside, if_pos covered, index, List.getD_cons_succ]
        · have outside : ¬ (first ≤ cell ∧ cell < first + (str.length + 1)) := by omega
          rw [if_neg inside, if_neg outside]

end Stores

variable {call : TextCall} {calls : List TextCall} {column row : Nat}

theorem TextCall.Valid.covers_iff (valid : call.Valid) (inside : column < columns) :
    call.Covers column row ↔
      call.y * columns + call.x ≤ row * columns + column ∧
        row * columns + column < call.y * columns + call.x + call.str.length := by
  have fits := valid.fits
  unfold columns at *
  constructor
  · rintro ⟨rfl, left, right⟩
    omega
  · rintro ⟨left, right⟩
    refine ⟨?_, ?_, ?_⟩ <;> omega

theorem latest_textVGADrawColorText (valid : call.Valid) (inside : column < columns)
    (half : Nat) (low : half < 2) :
    Clocked.latest? (storedAt ((row * columns + column) * 2 + half))
        (textVGADrawColorText call) =
      if call.Covers column row then some (call.cellByte (column - call.x) half)
      else none := by
  have nonzero : ∀ c ∈ call.str, c ≠ 0#8 := by
    rintro c membership rfl
    exact absurd (valid.ascii 0#8 membership).1 (by decide)
  rw [textVGADrawColorText, latest_drawLoop _ _ _ _ _ nonzero _ _ _ low, Nat.add_zero]
  by_cases covers : call.Covers column row
  · have index : row * columns + column - (call.y * columns + call.x) = column - call.x := by
      rw [covers.1]
      omega
    rw [if_pos ((valid.covers_iff inside).mp covers), if_pos covers, index, TextCall.cellByte]
  · rw [if_neg (mt (valid.covers_iff inside).mpr covers), if_neg covers]

theorem latest_textVGAColorClr {offset : Nat} (inside : offset < rows * columns * 2) :
    Clocked.latest? (storedAt offset) textVGAColorClr = some 0#8 := by
  have cleared : ∀ n, offset < n →
      Clocked.latest? (storedAt offset)
        ((List.range n).map fun i => { offset := i, value := 0x00#8 }) = some 0#8 := by
    intro n below
    induction n with
    | zero => exact absurd below (Nat.not_lt_zero offset)
    | succ n inductionHypothesis =>
        rw [List.range_succ, List.map_append, List.map_singleton, Clocked.latest?_concat]
        by_cases last : n = offset
        · simp [storedAt, last]
        · rw [inductionHypothesis (by omega)]
          simp [storedAt, last]
  exact cleared _ inside

theorem latest_program (valid : ∀ call ∈ calls, call.Valid) (inside : column < columns)
    (below : row < rows) (half : Nat) (low : half < 2) :
    Clocked.latest? (storedAt ((row * columns + column) * 2 + half)) (program calls) =
      some (match lastCall calls column row with
        | some call => call.cellByte (column - call.x) half
        | none => 0#8) := by
  have cleared : (row * columns + column) * 2 + half < rows * columns * 2 := by
    unfold rows columns at *
    omega
  have drawn : Clocked.latest? (fun call => Clocked.latest?
        (storedAt ((row * columns + column) * 2 + half)) (textVGADrawColorText call)) calls =
      (lastCall calls column row).map fun call => call.cellByte (column - call.x) half := by
    rw [lastCall, ← Clocked.latest?_map]
    apply Clocked.latest?_congr
    intro call membership
    rw [latest_textVGADrawColorText (valid call membership) inside half low]
    split <;> rfl
  rw [program, Clocked.latest?_append, latest_textVGAColorClr cleared,
    Clocked.latest?_flatMap, drawn]
  cases lastCall calls column row <;> rfl

theorem offset_drawLoop (x y : Nat) (background foreground : BitVec 8)
    (str : List (BitVec 8)) (i : Nat) :
    ∀ store ∈ drawLoop x y background foreground i str,
      store.offset < (y * columns + x + i + str.length) * 2 := by
  induction str generalizing i with
  | nil => exact fun store membership => absurd membership List.not_mem_nil
  | cons character str inductionHypothesis =>
      intro store membership
      rw [drawLoop] at membership
      rw [List.length_cons]
      split_ifs at membership with terminator
      · exact absurd membership List.not_mem_nil
      · rcases List.mem_cons.mp membership with rfl | membership
        · dsimp only
          omega
        · rcases List.mem_cons.mp membership with rfl | rest
          · dsimp only
            omega
          · have bound := inductionHypothesis (i + 1) store rest
            omega

theorem offset_program (valid : ∀ call ∈ calls, call.Valid) :
    ∀ store ∈ program calls, store.offset < rows * columns * 2 := by
  intro store membership
  rcases List.mem_append.mp membership with cleared | drawn
  · obtain ⟨i, inside, rfl⟩ := List.mem_map.mp cleared
    exact List.mem_range.mp inside
  · obtain ⟨call, calls, loop⟩ := List.mem_flatMap.mp drawn
    have bound := offset_drawLoop _ _ _ _ _ 0 store loop
    have row := (valid call calls).row
    have fits := (valid call calls).fits
    unfold rows columns at *
    omega

section Bus

/-- A bus cycle that carries out a store: a write of one lane of one word. -/
structure Carries (input : AvalonInput) (store : Store) : Prop where
  avlCs : input.avlCs = true
  avlWrite : input.avlWrite = true
  avlAddr : input.avlAddr.toNat = store.offset / 4
  avlByteEn : input.avlByteEn = 1#4 <<< (store.offset % 4)
  value : Clocked.lane 8 input.avlWritedata (store.offset % 4) = store.value

/-- The write cycles among `inputs` carry out the stores, in order. -/
def Delivers (inputs : List AvalonInput) (stores : List Store) : Prop :=
  List.Forall₂ Carries (inputs.filter fun input => input.avlWrite) stores

def Store.cycle (store : Store) : AvalonInput :=
  { AvalonInput.idle with
    avlWrite := true
    avlCs := true
    avlByteEn := 1#4 <<< (store.offset % 4)
    avlAddr := BitVec.ofNat 12 (store.offset / 4)
    avlWritedata := store.value.setWidth 32 <<< (8 * (store.offset % 4)) }

theorem carries_cycle {store : Store} (inside : store.offset < 16384) :
    Carries store.cycle store := by
  constructor
  case avlAddr =>
    change (BitVec.ofNat 12 (store.offset / 4)).toNat = store.offset / 4
    rw [BitVec.toNat_ofNat]
    omega
  case value =>
    apply BitVec.eq_of_getLsbD_eq
    intro i bound
    have position : 8 * (store.offset % 4) + i < 32 := by omega
    simp [Clocked.lane, Store.cycle, bound, position]
  all_goals rfl

theorem delivers_cycles {stores : List Store}
    (inside : ∀ store ∈ stores, store.offset < 16384) :
    Delivers (stores.map Store.cycle) stores := by
  rw [Delivers, List.filter_eq_self.mpr, List.forall₂_map_left_iff, List.forall₂_same]
  · intro store membership
    exact carries_cycle (inside store membership)
  · intro input membership
    obtain ⟨store, -, rfl⟩ := List.mem_map.mp membership
    rfl

variable {mem : Onchipmem} (font : FontRom)

def run (start : Interface mem) (inputs : List AvalonInput) : Interface mem :=
  inputs.foldl (fun s input => Interface.step font input s) start

def byteAt (s : Interface mem) (offset : Nat) : BitVec 8 :=
  Clocked.lane 8 (s.word (BitVec.ofNat 12 (offset / 4))) (offset % 4)

theorem writtenLane_of_carries {input : AvalonInput} {store : Store}
    (carries : Carries input store) {offset : Nat} (inside : offset < 16384) :
    Interface.writtenLane (BitVec.ofNat 12 (offset / 4)) (offset % 4) input =
      storedAt offset store := by
  have word : input.avlAddr = BitVec.ofNat 12 (offset / 4) ↔
      store.offset / 4 = offset / 4 := by
    rw [← BitVec.toNat_inj, carries.avlAddr, BitVec.toNat_ofNat, Nat.mod_eq_of_lt (by omega)]
  have lane : input.avlByteEn.getLsbD (offset % 4) = true ↔
      store.offset % 4 = offset % 4 := by
    rw [carries.avlByteEn]
    simp [BitVec.getLsbD_one]
    omega
  simp only [Interface.writtenLane, storedAt, word, lane, carries.avlWrite, true_and]
  by_cases here : store.offset = offset
  · subst here
    simp [carries.value]
  · rw [if_neg (by omega), if_neg here]

theorem byteAt_run (lawful : mem.Lawful) (start : Interface mem)
    {inputs : List AvalonInput} {stores : List Store} (delivers : Delivers inputs stores)
    {offset : Nat} (inside : offset < 16384) :
    byteAt (run font start inputs) offset =
      (Clocked.latest? (storedAt offset) stores).getD (byteAt start offset) := by
  have aligned := Clocked.latest?_eq_of_forall₂
    (fun input store (carries : Carries input store) =>
      writtenLane_of_carries carries inside) delivers
  have writes := Clocked.latest?_filter
    (Interface.writtenLane (BitVec.ofNat 12 (offset / 4)) (offset % 4))
    (fun input => input.avlWrite) (fun input idle => by simp [Interface.writtenLane, idle])
    inputs
  rw [← aligned, writes]
  apply Clocked.observe_foldl_eq_latest
    (fun (s : Interface mem) input => Interface.step font input s) fun s => byteAt s offset
  intro s input
  exact Interface.lane_step_eq_getD font input s lawful _ _

end Bus

section Screen

theorem halfWord_eq_bytes (word : BitVec 32) (index : Nat) :
    TextMode.halfWord word index =
      Clocked.lane 8 word (2 * (index % 2) + 1) ++ Clocked.lane 8 word (2 * (index % 2)) := by
  rw [TextMode.halfWord, Clocked.lane, Clocked.lane,
    BitVec.extractLsb'_append_extractLsb'_eq_extractLsb' (Nat.mul_succ _ _), ← Nat.mul_assoc]

theorem toNat_bytes (character : BitVec 8) {background foreground : BitVec 8}
    (lowBackground : background.toNat < 16) (lowForeground : foreground.toNat < 16) :
    (character ++ (foreground <<< 4 ||| background)).toNat =
      character.toNat * 256 + (foreground.toNat * 16 + background.toNat) := by
  have shifted : foreground.toNat <<< 4 % 2 ^ 8 = foreground.toNat <<< 4 := by
    rw [Nat.shiftLeft_eq]
    omega
  have nibbles : (foreground <<< 4 ||| background).toNat =
      foreground.toNat * 16 + background.toNat := by
    rw [BitVec.toNat_or, BitVec.toNat_shiftLeft, shifted,
      ← Nat.shiftLeft_add_eq_or_of_lt lowBackground, Nat.shiftLeft_eq]
  rw [BitVec.toNat_append, ← Nat.shiftLeft_add_eq_or_of_lt (BitVec.isLt _), nibbles,
    Nat.shiftLeft_eq]

theorem cellColour_of_bytes (font : FontRom) (palette : Palette)
    (character background foreground : BitVec 8) (ascii : character.toNat ≤ 127)
    (lowBackground : background.toNat < 16) (lowForeground : foreground.toNat < 16)
    (x y : Nat) :
    TextMode.cellColour font palette (character ++ (foreground <<< 4 ||| background)) x y =
      TextMode.colour palette
        (if TextMode.glyph font character.toNat x y then foreground.toNat
          else background.toNat) := by
  have value := toNat_bytes character lowBackground lowForeground
  generalize character ++ (foreground <<< 4 ||| background) = half at value ⊢
  have code : (half.extractLsb' 8 7).toNat = character.toNat := by
    rw [BitVec.extractLsb'_toNat, Nat.shiftRight_eq_div_pow]
    omega
  have upright : half.getLsbD 15 = false := by
    rw [BitVec.getLsbD]
    apply Nat.testBit_lt_two_pow
    omega
  have fg : (half.extractLsb' 4 4).toNat = foreground.toNat := by
    rw [BitVec.extractLsb'_toNat, Nat.shiftRight_eq_div_pow]
    omega
  have bg : (half.extractLsb' 0 4).toNat = background.toNat := by
    rw [BitVec.extractLsb'_toNat, Nat.shiftRight_eq_div_pow]
    omega
  rw [TextMode.cellColour, TextMode.foreground, code, upright, fg, bg]
  cases TextMode.glyph font character.toNat x y <;> rfl

/-- The colour the drawing logic computes at a position from the video memory. -/
def pixel (font : FontRom) (palette : Palette) (s : Interface mem) (drawX drawY : BitVec 10) :
    BitVec 12 :=
  TextMode.nextRgb drawX drawY font palette
    (s.word ((TextMode.rowMajorAddress drawX drawY).setWidth 12))

/-- The colour a program of text calls is meant to show. -/
def shown (font : FontRom) (palette : Palette) (calls : List TextCall) (x y : Nat) :
    BitVec 12 :=
  match lastCall calls (x / 8) (y / 16) with
  | some call =>
      let character := call.str.getD (x / 8 - call.x) 0#8
      TextMode.colour palette
        (if TextMode.glyph font character.toNat x y then call.foreground.toNat
          else call.background.toNat)
  | none => TextMode.colour palette 0

variable {mem : Onchipmem} {calls : List TextCall}

theorem lastCall_covers {column row : Nat} {call : TextCall}
    (last : lastCall calls column row = some call) :
    call ∈ calls ∧ call.Covers column row := by
  obtain ⟨other, membership, selected⟩ := Clocked.exists_of_latest? last
  by_cases covers : other.Covers column row
  · rw [if_pos covers, Option.some.injEq] at selected
    subst selected
    exact ⟨membership, covers⟩
  · rw [if_neg covers] at selected
    exact absurd selected nofun

theorem pixel_eq_cellColour (font : FontRom) (palette : Palette) (s : Interface mem)
    {drawX drawY : BitVec 10} (right : drawX.toNat < 640) (low : drawY.toNat < 480) :
    let cell := drawY.toNat / 16 * columns + drawX.toNat / 8
    pixel font palette s drawX drawY =
      TextMode.cellColour font palette (byteAt s (cell * 2 + 1) ++ byteAt s (cell * 2 + 0))
        drawX.toNat drawY.toNat := by
  intro cell
  have drawn := TextMode.nextRgb_eq_textColour font palette
    (fun i => s.word (BitVec.ofNat 12 i)) right low
  rw [BitVec.ofNat_toNat] at drawn
  have word : (cell * 2 + 1) / 4 = cell / 2 ∧ (cell * 2 + 0) / 4 = cell / 2 := by omega
  have lane : (cell * 2 + 1) % 4 = 2 * (cell % 2) + 1 ∧
      (cell * 2 + 0) % 4 = 2 * (cell % 2) := by omega
  rw [byteAt, byteAt, word.1, word.2, lane.1, lane.2, ← halfWord_eq_bytes]
  exact drawn

/-- A byte of a cell after the program has run over the bus. -/
theorem byteAt_run_program (lawful : mem.Lawful) (font : FontRom) (start : Interface mem)
    (valid : ∀ call ∈ calls, call.Valid) {inputs : List AvalonInput}
    (delivers : Delivers inputs (program calls)) {column row : Nat}
    (inside : column < columns) (below : row < rows) (half : Nat) (small : half < 2) :
    byteAt (run font start inputs) ((row * columns + column) * 2 + half) =
      match lastCall calls column row with
      | some call => call.cellByte (column - call.x) half
      | none => 0#8 := by
  have range : (row * columns + column) * 2 + half < 16384 := by
    unfold rows columns at *
    omega
  rw [byteAt_run font lawful start delivers range, latest_program valid inside below half small]
  rfl

theorem pixel_run_program (lawful : mem.Lawful) (font : FontRom) (palette : Palette)
    (start : Interface mem) (valid : ∀ call ∈ calls, call.Valid)
    {inputs : List AvalonInput} (delivers : Delivers inputs (program calls))
    {drawX drawY : BitVec 10} (right : drawX.toNat < 640) (low : drawY.toNat < 480) :
    pixel font palette (run font start inputs) drawX drawY =
      shown font palette calls drawX.toNat drawY.toNat := by
  have inside : drawX.toNat / 8 < columns := by
    unfold columns
    omega
  have below : drawY.toNat / 16 < rows := by
    unfold rows
    omega
  have bytes := byteAt_run_program lawful font start valid delivers inside below
  rw [pixel_eq_cellColour font palette _ right low, bytes 0 (by decide), bytes 1 (by decide),
    shown]
  cases last : lastCall calls (drawX.toNat / 8) (drawY.toNat / 16) with
  | none =>
      have zero := cellColour_of_bytes font palette 0#8 0#8 0#8 (by decide) (by decide)
        (by decide) drawX.toNat drawY.toNat
      rw [ite_self] at zero
      exact zero
  | some call =>
      obtain ⟨membership, -, left, right⟩ := lastCall_covers last
      have valid := valid call membership
      have index : drawX.toNat / 8 - call.x < call.str.length := by omega
      have ascii : (call.str.getD (drawX.toNat / 8 - call.x) 0#8).toNat ≤ 127 := by
        rw [List.getD_eq_getElem _ _ index]
        exact (valid.ascii _ (List.getElem_mem index)).2
      exact cellColour_of_bytes font palette _ _ _ ascii valid.background valid.foreground _ _

/-- The screen shows, cell by cell, the last call; a further call changes no pixel
outside its own cells. -/
theorem screen_shows_last_call (lawful : mem.Lawful) (font : FontRom) (palette : Palette)
    (start : Interface mem) (calls : List TextCall) (valid : ∀ call ∈ calls, call.Valid)
    (inputs : List AvalonInput) (delivers : Delivers inputs (program calls))
    {drawX drawY : BitVec 10} (right : drawX.toNat < 640) (low : drawY.toNat < 480) :
    pixel font palette (run font start inputs) drawX drawY =
        shown font palette calls drawX.toNat drawY.toNat ∧
      ∀ call more, call.Valid → Delivers more (textVGADrawColorText call) →
        ¬ call.Covers (drawX.toNat / 8) (drawY.toNat / 16) →
          pixel font palette (run font start (inputs ++ more)) drawX drawY =
            pixel font palette (run font start inputs) drawX drawY := by
  have before := pixel_run_program lawful font palette start valid delivers right low
  refine ⟨before, ?_⟩
  intro call more validCall delivered outside
  have validAll : ∀ other ∈ calls ++ [call], other.Valid := by
    intro other membership
    rcases List.mem_append.mp membership with earlier | last
    · exact valid other earlier
    · rw [List.mem_singleton.mp last]
      exact validCall
  have deliversAll : Delivers (inputs ++ more) (program (calls ++ [call])) := by
    have stores : program (calls ++ [call]) = program calls ++ textVGADrawColorText call := by
      simp [program]
    rw [Delivers, List.filter_append, stores]
    exact List.rel_append delivers delivered
  have after := pixel_run_program lawful font palette start validAll deliversAll right low
  have unchanged : lastCall (calls ++ [call]) (drawX.toNat / 8) (drawY.toNat / 16) =
      lastCall calls (drawX.toNat / 8) (drawY.toNat / 16) := by
    simp [lastCall, outside]
  rw [after, before, shown, unchanged, shown]

/-- `ABC`, and over its second letter `XY`. -/
def overlapping : List TextCall :=
  [⟨[0x41#8, 0x42#8, 0x43#8], 0, 0, 1#8, 15#8⟩, ⟨[0x58#8, 0x59#8], 1, 0, 2#8, 4#8⟩]

theorem overlapping_valid : ∀ call ∈ overlapping, call.Valid := by
  intro call listed
  simp only [overlapping, List.mem_cons, List.not_mem_nil, or_false] at listed
  rcases listed with rfl | rfl
  · exact ⟨by decide, by decide, by decide, by decide, by decide⟩
  · exact ⟨by decide, by decide, by decide, by decide, by decide⟩

def stripes : Palette := fun i => BitVec.ofNat 32 (0x01E2A3C4 + i.toNat)

theorem screen_shows_last_call_overlapping :
    pixel (fun _ => 0xA5#8) stripes
          (run (fun _ => 0xA5#8) Interface.cleared ((program overlapping).map Store.cycle))
          11#10 5#10 =
        shown (fun _ => 0xA5#8) stripes overlapping 11 5 ∧
      ∀ call more, call.Valid → Delivers more (textVGADrawColorText call) →
        ¬ call.Covers 1 0 →
          pixel (fun _ => 0xA5#8) stripes
              (run (fun _ => 0xA5#8) Interface.cleared
                ((program overlapping).map Store.cycle ++ more)) 11#10 5#10 =
            pixel (fun _ => 0xA5#8) stripes
              (run (fun _ => 0xA5#8) Interface.cleared
                ((program overlapping).map Store.cycle)) 11#10 5#10 :=
  screen_shows_last_call Onchipmem.reference_lawful (fun _ => 0xA5#8) stripes
    Interface.cleared overlapping overlapping_valid ((program overlapping).map Store.cycle)
    (delivers_cycles fun store membership =>
      Nat.lt_trans (offset_program overlapping_valid store membership) (by decide))
    (by decide) (by decide)

end Screen

end Driver

end DigitalSystems.Vga
