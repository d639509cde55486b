import DigitalSystems.Clocked.Progress
import DigitalSystems.Clocked.Queue

/-!
# The clock crosser

`altera_avalon_st_clock_crosser` carries one word at a time between two unrelated clocks: a
toggle goes over with the word, and comes back when the word has been taken.  Both ways it
passes a synchronizer whose first register may settle either way when its input has moved.
-/

namespace DigitalSystems.Soc

open Clocked (IsQueue Recurs emitted)

/-- `altera_std_synchronizer_nocut` of depth `stages + 2`. -/
structure Synchronizer (stages : Nat) where
  dinLast : Bool
  dinS1 : Bool
  dreg : BitVec (stages + 1)

namespace Synchronizer

variable {stages : Nat}

def reset : Synchronizer stages := ⟨false, false, 0⟩

def dout (s : Synchronizer stages) : Bool := s.dreg.getLsbD stages

/-- `random` is how a metastable first register settles; it is `din` when nothing moved. -/
def nextDinS1 (random din : Bool) (s : Synchronizer stages) : Bool :=
  if s.dinLast ^^ din then random else din

def step (random din : Bool) (s : Synchronizer stages) : Synchronizer stages where
  dinLast := din
  dinS1 := s.nextDinS1 random din
  dreg := (s.dreg.concat s.dinS1).setWidth (stages + 1)

def clocked (rises random din : Bool) (s : Synchronizer stages) : Synchronizer stages :=
  if rises then s.step random din else s

/-- The registers in the order in which a value passes them. -/
def chain (s : Synchronizer stages) : Nat → Bool
  | 0 => s.dinLast
  | 1 => s.dinS1
  | i + 2 => s.dreg.getLsbD i

/-- `value` has come to the first `depth` registers; the others have the opposite. -/
def Turned (value : Bool) (depth : Nat) (s : Synchronizer stages) : Prop :=
  ∀ i, i < stages + 3 → (s.chain i = value ↔ i < depth)

theorem dout_eq_chain (s : Synchronizer stages) : s.dout = s.chain (stages + 2) := rfl

theorem chain_step_add_two (random din : Bool) (s : Synchronizer stages) {i : Nat}
    (inside : i < stages + 1) : (s.step random din).chain (i + 2) = s.chain (i + 1) := by
  rw [chain, step, BitVec.getLsbD_setWidth, BitVec.getLsbD_concat, decide_eq_true inside,
    Bool.true_and]
  cases i with
  | zero => rfl
  | succ i => rfl

section Turned

variable {value : Bool} {depth : Nat} {s : Synchronizer stages}

theorem Turned.dout_eq (turned : s.Turned value depth) :
    s.dout = value ↔ stages + 2 < depth := by
  rw [dout_eq_chain]
  exact turned (stages + 2) (by omega)

theorem Turned.opposite (turned : s.Turned value (stages + 3)) : s.Turned (!value) 0 := by
  intro i inside
  rw [(turned i inside).mpr inside]
  exact ⟨fun equal => absurd equal (by cases value <;> decide), fun none => absurd none nofun⟩

theorem turned_reset : (reset : Synchronizer stages).Turned false (stages + 3) := by
  intro i inside
  have low : (reset : Synchronizer stages).chain i = false := by
    match i with
    | 0 => rfl
    | 1 => rfl
    | i + 2 => exact BitVec.getLsbD_zero
  rw [low]
  exact ⟨fun _ => inside, fun _ => rfl⟩

/-- A value that is held comes at least one register further at every edge. -/
theorem Turned.step (turned : s.Turned value depth) (bound : depth ≤ stages + 3)
    (random : Bool) :
    ∃ depth', (s.step random value).Turned value depth' ∧ depth' ≤ stages + 3 ∧
      0 < depth' ∧ (depth < depth' ∨ depth' = stages + 3) := by
  have later : ∀ i, i < stages + 1 →
      ((s.step random value).chain (i + 2) = value ↔ i + 1 < depth) := by
    intro i inside
    rw [chain_step_add_two random value s inside]
    exact turned (i + 1) (by omega)
  have second : (s.step random value).chain 1 =
      if s.dinLast ^^ value then random else value := rfl
  rcases Nat.eq_zero_or_pos depth with rfl | begun
  · -- The first register sees the value move and may take either.
    by_cases settles : (s.step random value).chain 1 = value
    · refine ⟨2, ?_, by omega, by decide, Or.inl (by decide)⟩
      intro i inside
      match i with
      | 0 => exact ⟨fun _ => by decide, fun _ => rfl⟩
      | 1 => exact ⟨fun _ => by decide, fun _ => settles⟩
      | i + 2 =>
          rw [later i (by omega)]
          omega
    · refine ⟨1, ?_, by omega, by decide, Or.inl (by decide)⟩
      intro i inside
      match i with
      | 0 => exact ⟨fun _ => by decide, fun _ => rfl⟩
      | 1 => exact ⟨fun equal => absurd equal settles, fun below => absurd below (by decide)⟩
      | i + 2 =>
          rw [later i (by omega)]
          omega
  · have held : s.dinLast = value := (turned 0 (by omega)).mpr begun
    rw [held, Bool.xor_self] at second
    refine ⟨min (depth + 1) (stages + 3), ?_, by omega, by omega, by omega⟩
    intro i inside
    match i with
    | 0 => exact ⟨fun _ => by omega, fun _ => rfl⟩
    | 1 => exact ⟨fun _ => by omega, fun _ => second⟩
    | i + 2 =>
        rw [later i (by omega)]
        omega

theorem Turned.clocked (turned : s.Turned value depth) (bound : depth ≤ stages + 3)
    (rises random : Bool) :
    ∃ depth', (s.clocked rises random value).Turned value depth' ∧ depth ≤ depth' ∧
      depth' ≤ stages + 3 ∧
      (rises = true → 0 < depth' ∧ (depth < depth' ∨ depth' = stages + 3)) := by
  cases rises with
  | false => exact ⟨depth, turned, Nat.le_refl _, bound, nofun⟩
  | true =>
      obtain ⟨depth', turned', bound', begun, further⟩ := turned.step bound random
      exact ⟨depth', turned', by omega, bound', fun _ => ⟨begun, further⟩⟩

theorem Turned.stays (turned : s.Turned value (stages + 3)) (rises random : Bool) :
    (s.clocked rises random value).Turned value (stages + 3) := by
  obtain ⟨depth', turned', order, bound, _⟩ := turned.clocked (Nat.le_refl _) rises random
  rw [Nat.le_antisymm order bound]
  exact turned'

end Turned

end Synchronizer

/-- `altera_avalon_st_clock_crosser` without its output pipeline. -/
structure ClockCrosser (Data : Type) (forward backward : Nat) where
  inDataBuffer : Data
  inDataToggle : Bool
  outToIn : Synchronizer backward
  outDataBuffer : Data
  outDataToggleFlopped : Bool
  inToOut : Synchronizer forward

namespace ClockCrosser

variable {Data : Type} {forward backward : Nat}

/-- An instant in which one of the clocks rises, or both, with what is on the ports. -/
structure Edge (Data : Type) where
  inClk : Bool
  outClk : Bool
  inValid : Bool
  inData : Data
  outReady : Bool
  inRandom : Bool
  outRandom : Bool

section Wires

variable (edge : Edge Data) (s : ClockCrosser Data forward backward)

def inReady : Bool := !(s.outToIn.dout ^^ s.inDataToggle)

def takeInData : Bool := edge.inValid && s.inReady

def outValid : Bool := s.inToOut.dout ^^ s.outDataToggleFlopped

def outDataTaken : Bool := edge.outReady && s.outValid

def step : ClockCrosser Data forward backward where
  inDataBuffer := if edge.inClk && takeInData edge s then edge.inData else s.inDataBuffer
  inDataToggle := if edge.inClk && takeInData edge s then !s.inDataToggle else s.inDataToggle
  outToIn := s.outToIn.clocked edge.inClk edge.inRandom s.outDataToggleFlopped
  outDataBuffer := if edge.outClk then s.inDataBuffer else s.outDataBuffer
  outDataToggleFlopped :=
    if edge.outClk && outDataTaken edge s then s.inToOut.dout else s.outDataToggleFlopped
  inToOut := s.inToOut.clocked edge.outClk edge.outRandom s.inDataToggle

def accepts : Option Data :=
  if edge.inClk && takeInData edge s then some edge.inData else none

def delivers : Option Data :=
  if edge.outClk && outDataTaken edge s then some s.outDataBuffer else none

end Wires

/-- After `in_reset` and `out_reset`. -/
def reset (zero : Data) : ClockCrosser Data forward backward :=
  ⟨zero, false, .reset, zero, false, .reset⟩

/-- The last word has been taken, and this is known to the first `depth` registers of the
way back. -/
structure Idle (depth : Nat) (s : ClockCrosser Data forward backward) : Prop where
  caught : s.outDataToggleFlopped = s.inDataToggle
  forth : s.inToOut.Turned s.inDataToggle (forward + 3)
  back : s.outToIn.Turned s.inDataToggle depth
  bound : depth ≤ backward + 3

/-- A word is on its way, and this is known to the first `depth` registers of the way over. -/
structure Outstanding (depth : Nat) (s : ClockCrosser Data forward backward) : Prop where
  apart : s.outDataToggleFlopped = !s.inDataToggle
  forth : s.inToOut.Turned s.inDataToggle depth
  back : s.outToIn.Turned s.outDataToggleFlopped (backward + 3)
  bound : depth ≤ forward + 3
  word : 0 < depth → s.outDataBuffer = s.inDataBuffer

section Step

variable {s : ClockCrosser Data forward backward} {depth : Nat}

theorem Idle.outValid_eq (idle : Idle depth s) : s.outValid = false := by
  have arrived : s.inToOut.dout = s.inDataToggle := idle.forth.dout_eq.mpr (by omega)
  rw [outValid, arrived, idle.caught, Bool.xor_self]

theorem Idle.inReady_iff (idle : Idle depth s) : s.inReady = true ↔ depth = backward + 3 := by
  have known := idle.back.dout_eq
  have bound := idle.bound
  have ready : s.inReady = true ↔ s.outToIn.dout = s.inDataToggle := by
    rw [inReady]
    cases s.outToIn.dout <;> cases s.inDataToggle <;> decide
  rw [ready, known]
  omega

theorem Outstanding.inReady_eq (outstanding : Outstanding depth s) : s.inReady = false := by
  have known : s.outToIn.dout = s.outDataToggleFlopped := outstanding.back.dout_eq.mpr (by omega)
  rw [inReady, known, outstanding.apart]
  cases s.inDataToggle <;> rfl

theorem Outstanding.outValid_iff (outstanding : Outstanding depth s) :
    s.outValid = true ↔ depth = forward + 3 := by
  have known := outstanding.forth.dout_eq
  have bound := outstanding.bound
  have valid : s.outValid = true ↔ s.inToOut.dout = s.inDataToggle := by
    rw [outValid, outstanding.apart]
    cases s.inToOut.dout <;> cases s.inDataToggle <;> decide
  rw [valid, known]
  omega

/-- An idle crosser delivers nothing; it may accept a word if the way back is through. -/
theorem Idle.step (idle : Idle depth s) (edge : Edge Data) :
    delivers edge s = none ∧
      (accepts edge s = none ∧
          (∃ depth', Idle depth' (step edge s) ∧ depth ≤ depth' ∧
            (edge.inClk = true → depth < depth' ∨ depth' = backward + 3)) ∨
        accepts edge s = some (step edge s).inDataBuffer ∧ Outstanding 0 (step edge s)) := by
  have silent : outDataTaken edge s = false := by
    rw [outDataTaken, idle.outValid_eq, Bool.and_false]
  have forth := idle.forth.stays edge.outClk edge.outRandom
  have flopped : (ClockCrosser.step edge s).outDataToggleFlopped = s.inDataToggle := by
    rw [ClockCrosser.step, silent, Bool.and_false]
    exact idle.caught
  refine ⟨by rw [delivers, silent, Bool.and_false]; rfl, ?_⟩
  by_cases taken : (edge.inClk && takeInData edge s) = true
  · have ready : s.inReady = true := by
      rw [takeInData] at taken
      simp only [Bool.and_eq_true] at taken
      exact taken.2.2
    obtain rfl := idle.inReady_iff.mp ready
    have back := idle.back.stays edge.inClk edge.inRandom
    refine Or.inr ⟨by rw [accepts, ClockCrosser.step, if_pos taken, if_pos taken], ?_⟩
    have toggled : (ClockCrosser.step edge s).inDataToggle = !s.inDataToggle := if_pos taken
    constructor
    · rw [flopped, toggled, Bool.not_not]
    · rw [toggled]
      exact forth.opposite
    · rw [flopped]
      change (s.outToIn.clocked edge.inClk edge.inRandom s.outDataToggleFlopped).Turned _ _
      rw [idle.caught]
      exact back
    · exact Nat.zero_le _
    · exact fun none => absurd none nofun
  · have same : (ClockCrosser.step edge s).inDataToggle = s.inDataToggle := if_neg taken
    obtain ⟨depth', back, order, bound, further⟩ :=
      idle.back.clocked idle.bound edge.inClk edge.inRandom
    refine Or.inl ⟨if_neg taken, depth', ⟨?_, ?_, ?_, bound⟩, order, fun rises =>
      (further rises).2⟩
    · rw [flopped, same]
    · rw [same]
      exact forth
    · rw [same]
      change (s.outToIn.clocked edge.inClk edge.inRandom s.outDataToggleFlopped).Turned _ _
      rw [idle.caught]
      exact back

/-- While a word is on its way none is accepted; it is delivered unchanged. -/
theorem Outstanding.step (outstanding : Outstanding depth s) (edge : Edge Data) :
    accepts edge s = none ∧
      (delivers edge s = none ∧ (step edge s).inDataBuffer = s.inDataBuffer ∧
          (∃ depth', Outstanding depth' (step edge s) ∧ depth ≤ depth' ∧
            (edge.outClk = true → depth < depth' ∨ depth' = forward + 3)) ∨
        delivers edge s = some s.inDataBuffer ∧ Idle 0 (step edge s)) := by
  have refused : takeInData edge s = false := by
    rw [takeInData, outstanding.inReady_eq, Bool.and_false]
  have same : (ClockCrosser.step edge s).inDataToggle = s.inDataToggle := by
    rw [ClockCrosser.step, refused, Bool.and_false]
    rfl
  have buffer : (ClockCrosser.step edge s).inDataBuffer = s.inDataBuffer := by
    rw [ClockCrosser.step, refused, Bool.and_false]
    rfl
  have back := outstanding.back.stays edge.inClk edge.inRandom
  refine ⟨by rw [accepts, refused, Bool.and_false]; rfl, ?_⟩
  by_cases taken : (edge.outClk && outDataTaken edge s) = true
  · have valid : s.outValid = true := by
      rw [outDataTaken] at taken
      simp only [Bool.and_eq_true] at taken
      exact taken.2.2
    obtain rfl := outstanding.outValid_iff.mp valid
    have arrived : s.inToOut.dout = s.inDataToggle := outstanding.forth.dout_eq.mpr (by omega)
    have flopped : (ClockCrosser.step edge s).outDataToggleFlopped = s.inDataToggle :=
      (if_pos taken).trans arrived
    have forth := outstanding.forth.stays edge.outClk edge.outRandom
    refine Or.inr ⟨?_, ?_, ?_, ?_, Nat.zero_le _⟩
    · rw [delivers, if_pos taken, outstanding.word (by omega)]
    · rw [flopped, same]
    · rw [same]
      exact forth
    · rw [same, ← Bool.not_not s.inDataToggle, ← outstanding.apart]
      exact back.opposite
  · have flopped : (ClockCrosser.step edge s).outDataToggleFlopped = s.outDataToggleFlopped :=
      if_neg taken
    obtain ⟨depth', forth, order, bound, further⟩ :=
      outstanding.forth.clocked outstanding.bound edge.outClk edge.outRandom
    refine Or.inl ⟨if_neg taken, buffer, depth', ⟨?_, ?_, ?_, bound, ?_⟩, order, fun rises =>
      (further rises).2⟩
    · rw [flopped, same, outstanding.apart]
    · rw [same]
      exact forth
    · rw [flopped]
      exact back
    · -- Every edge of the other clock samples the word again, which is held meanwhile.
      intro begun
      rw [buffer, ClockCrosser.step]
      cases rises : edge.outClk with
      | true => rfl
      | false =>
          rw [rises] at forth
          have unchanged := (forth 0 (by omega)).mpr begun
          exact outstanding.word ((outstanding.forth 0 (by omega)).mp unchanged)

end Step

def Valid (s : ClockCrosser Data forward backward) : Prop :=
  (∃ depth, Idle depth s) ∨ ∃ depth, Outstanding depth s

/-- The word on its way, if there is one. -/
def contents (s : ClockCrosser Data forward backward) : List Data :=
  if s.outDataToggleFlopped = s.inDataToggle then [] else [s.inDataBuffer]

section Queue

variable {s : ClockCrosser Data forward backward} {depth : Nat}

theorem Idle.contents_eq (idle : Idle depth s) : contents s = [] := if_pos idle.caught

theorem Outstanding.contents_eq (outstanding : Outstanding depth s) :
    contents s = [s.inDataBuffer] := by
  apply if_neg
  rw [outstanding.apart]
  cases s.inDataToggle <;> decide

theorem idle_reset (zero : Data) :
    Idle (backward + 3) (reset zero : ClockCrosser Data forward backward) :=
  ⟨rfl, Synchronizer.turned_reset, Synchronizer.turned_reset, Nat.le_refl _⟩

theorem isQueue :
    IsQueue (step : Edge Data → ClockCrosser Data forward backward → _) accepts delivers Valid
      contents where
  valid := by
    rintro edge s (⟨depth, idle⟩ | ⟨depth, outstanding⟩)
    · obtain ⟨-, ⟨-, depth', idle', -⟩ | ⟨-, outstanding⟩⟩ := idle.step edge
      · exact Or.inl ⟨depth', idle'⟩
      · exact Or.inr ⟨0, outstanding⟩
    · obtain ⟨-, ⟨-, -, depth', outstanding', -⟩ | ⟨-, idle⟩⟩ := outstanding.step edge
      · exact Or.inr ⟨depth', outstanding'⟩
      · exact Or.inl ⟨0, idle⟩
  balance := by
    rintro edge s (⟨depth, idle⟩ | ⟨depth, outstanding⟩)
    · obtain ⟨silent, ⟨refused, depth', idle', -⟩ | ⟨taken, outstanding⟩⟩ := idle.step edge
      · rw [silent, refused, idle.contents_eq, idle'.contents_eq]
        rfl
      · rw [silent, taken, idle.contents_eq, outstanding.contents_eq]
        rfl
    · obtain ⟨refused, ⟨silent, same, depth', outstanding', -⟩ | ⟨taken, idle⟩⟩ :=
        outstanding.step edge
      · rw [silent, refused, outstanding.contents_eq, outstanding'.contents_eq, same]
        rfl
      · rw [taken, refused, outstanding.contents_eq, idle.contents_eq]
        rfl

end Queue

section Run

variable (edges : Nat → Edge Data) (zero : Data)

/-- The crosser from its reset on, whichever way the edges of the two clocks interleave. -/
abbrev crossing (forward backward : Nat) : Nat → ClockCrosser Data forward backward :=
  Clocked.run step edges (reset zero)

/-- No word is lost, duplicated, changed or overtaken, however the clocks interleave and the
synchronizers settle; a word that is offered at the exit is the oldest not yet delivered. -/
theorem delivers_in_order (forward backward n : Nat) :
    let states := crossing edges zero forward backward
    let accepted := emitted (fun t => accepts (edges t) (states t)) n
    let delivered := emitted (fun t => delivers (edges t) (states t)) n
    delivered <+: accepted ∧ accepted.length ≤ delivered.length + 1 ∧
      ((states n).outValid = true → accepted = delivered ++ [(states n).outDataBuffer]) ∧
      ((states n).inReady = true → accepted = delivered) := by
  have initially : Idle (backward + 3) (reset zero : ClockCrosser Data forward backward) :=
    idle_reset zero
  have valid : Valid (reset zero : ClockCrosser Data forward backward) := Or.inl ⟨_, initially⟩
  have balance := isQueue.run_balance edges valid initially.contents_eq n
  dsimp only
  rw [balance]
  refine ⟨List.prefix_append _ _, ?_, ?_, ?_⟩
  all_goals
    rcases isQueue.run_valid edges valid n with ⟨depth, idle⟩ | ⟨depth, outstanding⟩
  · rw [idle.contents_eq]
    simp
  · rw [outstanding.contents_eq]
    simp
  · intro offered
    rw [idle.outValid_eq] at offered
    cases offered
  · intro offered
    obtain rfl := outstanding.outValid_iff.mp offered
    rw [outstanding.contents_eq, outstanding.word (by omega)]
  · intro _
    rw [idle.contents_eq, List.append_nil]
  · intro ready
    rw [outstanding.inReady_eq] at ready
    cases ready

variable {edges zero}

/-- A word on its way is delivered, if the exit is served again and again. -/
theorem exists_idle (served : Recurs fun t => (edges t).outClk = true ∧ (edges t).outReady = true)
    {t depth : Nat} (outstanding : Outstanding depth (crossing edges zero forward backward t)) :
    ∃ u, t ≤ u ∧ Idle 0 (crossing edges zero forward backward u) := by
  have step : ∀ rank t,
      (∃ depth, forward + 3 - depth = rank ∧
        Outstanding depth (crossing edges zero forward backward t)) →
      (∃ u, t ≤ u ∧ Idle 0 (crossing edges zero forward backward u)) ∨
        ∃ rank', (∃ depth, forward + 3 - depth = rank' ∧
            Outstanding depth (crossing edges zero forward backward (t + 1))) ∧
          rank' ≤ rank ∧
          ((edges t).outClk = true ∧ (edges t).outReady = true → rank' < rank) := by
    rintro rank t ⟨depth, rfl, outstanding⟩
    obtain ⟨-, ⟨silent, -, depth', next, order, further⟩ | ⟨-, idle⟩⟩ :=
      outstanding.step (edges t)
    · refine Or.inr ⟨_, ⟨depth', rfl, next⟩, by omega, ?_⟩
      rintro ⟨rises, ready⟩
      have waiting : depth ≠ forward + 3 := by
        intro arrived
        have valid := outstanding.outValid_iff.mpr arrived
        rw [delivers, outDataTaken, rises, ready, valid] at silent
        cases silent
      have bound := outstanding.bound
      have further := further rises
      omega
    · exact Or.inl ⟨t + 1, Nat.le_succ t, idle⟩
  exact Clocked.eventually_of_rank step served ⟨depth, rfl, outstanding⟩

/-- That it has been delivered becomes known, if the other clock goes on. -/
theorem exists_inReady (ticks : Recurs fun t => (edges t).inClk = true) {t depth : Nat}
    (idle : Idle depth (crossing edges zero forward backward t)) :
    ∃ u, t ≤ u ∧ (crossing edges zero forward backward u).inReady = true := by
  have step : ∀ rank t,
      (∃ depth, backward + 3 - depth = rank ∧
        Idle depth (crossing edges zero forward backward t)) →
      (∃ u, t ≤ u ∧ (crossing edges zero forward backward u).inReady = true) ∨
        ∃ rank', (∃ depth, backward + 3 - depth = rank' ∧
            Idle depth (crossing edges zero forward backward (t + 1))) ∧
          rank' ≤ rank ∧ ((edges t).inClk = true → rank' < rank) := by
    rintro rank t ⟨depth, rfl, idle⟩
    by_cases ready : (crossing edges zero forward backward t).inReady = true
    · exact Or.inl ⟨t, Nat.le_refl t, ready⟩
    · have waiting : depth ≠ backward + 3 := fun through => ready (idle.inReady_iff.mpr through)
      have bound := idle.bound
      obtain ⟨-, ⟨-, depth', next, order, further⟩ | ⟨taken, -⟩⟩ := idle.step (edges t)
      · refine Or.inr ⟨_, ⟨depth', rfl, next⟩, by omega, fun rises => ?_⟩
        have further := further rises
        omega
      · rw [accepts, takeInData, Bool.eq_false_iff.mpr ready, Bool.and_false,
          Bool.and_false] at taken
        cases taken
  exact Clocked.eventually_of_rank step ticks ⟨depth, rfl, idle⟩

/-- As long as both clocks go on and the exit is served, every word crosses and the entrance
opens again. -/
theorem every_word_crosses (forward backward : Nat)
    (ticks : Recurs fun t => (edges t).inClk = true)
    (served : Recurs fun t => (edges t).outClk = true ∧ (edges t).outReady = true) (t : Nat) :
    let states := crossing edges zero forward backward
    ∃ u, t ≤ u ∧ (states u).inReady = true ∧
      emitted (fun t => accepts (edges t) (states t)) t <+:
        emitted (fun t => delivers (edges t) (states t)) u := by
  have initially : Idle (backward + 3) (reset zero : ClockCrosser Data forward backward) :=
    idle_reset zero
  have valid : Valid (reset zero : ClockCrosser Data forward backward) := Or.inl ⟨_, initially⟩
  have ready : ∃ u, t ≤ u ∧ (crossing edges zero forward backward u).inReady = true := by
    rcases isQueue.run_valid edges valid t with ⟨depth, idle⟩ | ⟨depth, outstanding⟩
    · exact exists_inReady ticks idle
    · obtain ⟨v, before, idle⟩ := exists_idle served outstanding
      obtain ⟨u, after, ready⟩ := exists_inReady ticks idle
      exact ⟨u, Nat.le_trans before after, ready⟩
  obtain ⟨u, after, ready⟩ := ready
  refine ⟨u, after, ready, ?_⟩
  have empty : contents (crossing edges zero forward backward u) = [] := by
    rcases isQueue.run_valid edges valid u with ⟨depth, idle⟩ | ⟨depth, outstanding⟩
    · exact idle.contents_eq
    · rw [outstanding.inReady_eq] at ready
      cases ready
  have balance := isQueue.run_balance edges valid initially.contents_eq u
  rw [empty, List.append_nil] at balance
  rw [← balance]
  exact Clocked.emitted_prefix _ after

/-- Both clocks rise in every instant, and there is always a word to take over. -/
def streaming (t : Nat) : Edge Nat := ⟨true, true, true, t, true, true, true⟩

theorem every_word_crosses_streaming :
    let states := crossing streaming 0 0 0
    ∃ u, 20 ≤ u ∧ (states u).inReady = true ∧
      emitted (fun t => accepts (streaming t) (states t)) 20 <+:
        emitted (fun t => delivers (streaming t) (states t)) u :=
  every_word_crosses 0 0 (fun t => ⟨t, Nat.le_refl t, rfl⟩) (fun t => ⟨t, Nat.le_refl t, rfl, rfl⟩)
    20

end Run

end ClockCrosser

end DigitalSystems.Soc
