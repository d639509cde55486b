import DigitalSystems.Slc3.Dialogue

/-!
# Conversations

A dialogue in the terms of the person at the board.  The program waits; the wait ends with a
falling edge of `Continue`; the program takes its turn, for which it looks at the switches
once; and it waits again, with the outcome of the turn on the board.  Nothing here depends on
how the program goes about it.
-/

namespace DigitalSystems.Slc3

open Isa
open Clocked (Inevitable)

universe u

def View.Waits (view : View) : Prop := view.cpu.state.Paused

/-- Two views that differ at most in words that only one of the memories holds. -/
structure View.Agrees (view view' : View) : Prop where
  sw : view'.sw = view.sw
  continue_ : view'.continue_ = view.continue_
  cpu : view'.cpu = view.cpu
  memory : ∀ address, address ≤ 254#8 → view'.memory address = view.memory address

/-- The wait in cycle `t` ends, and the next one begins in cycle `u`. -/
structure NextWait (views : Nat → View) (t u : Nat) : Prop where
  order : t + 1 < u
  ends : (views t).Waits
  begins : (views u).Waits
  between : ∀ v, t < v → v < u → ¬ (views v).Waits

/-- `turn` is what the program makes of the dialogue and the switches when a wait has
ended. -/
structure Conversation (Talk : Type u) where
  turn : Talk → BitVec 10 → Talk
  Shows : Talk → Word → BitVec 10 → (BitVec 8 → Word) → Prop
  shows_common : ∀ {talk hexData led memory memory'},
    (∀ address, address ≤ 254#8 → memory' address = memory address) →
    Shows talk hexData led memory → Shows talk hexData led memory'
  home : Word
  AtHome : Talk → Prop

namespace Conversation

variable {Talk : Type u} (conversation : Conversation Talk)

/-- `talk t` is the dialogue in cycle `t`, if the program waits there. -/
structure Held (views : Nat → View) (initial : Talk) (talk : Nat → Talk) : Prop where
  first : ∀ t, (views t).Waits → (∀ u, u < t → ¬ (views u).Waits) → talk t = initial
  stands : ∀ t, (views t).Waits → (views (t + 1)).Waits → talk (t + 1) = talk t
  turns : ∀ t u, NextWait views t u →
    ∃ v, t < v ∧ v < u ∧ talk u = conversation.turn (talk t) (views v).sw
  shows : ∀ t, (views t).Waits →
    conversation.Shows (talk t) (views t).cpu.hexData (views t).cpu.led (views t).memory
  returns : (∀ t, ∃ u, t ≤ u ∧ (views u).continue_ = true) →
    (∀ t, ∃ u, t ≤ u ∧ (views u).continue_ = false) →
    ∀ t, ∃ u, t ≤ u ∧ (views u).Waits ∧ conversation.AtHome (talk u)

/-- The program waits again and again.  A wait ends with the first falling edge of `Continue`
that it sees both sides of, and it does not end without one. -/
structure Serves (views : Nat → View) (initial : Talk) : Prop where
  held : ∃ talk, conversation.Held views initial talk
  waits : ∀ t, ∃ u, t ≤ u ∧ (views u).Waits
  lasts : ∀ t, ¬ (views t).Waits → (views (t + 1)).Waits → (views (t + 2)).Waits
  ends : ∀ t, (views t).Waits → (views (t + 1)).Waits → (¬ (views (t + 2)).Waits ↔
    (views t).continue_ = true ∧ (views (t + 1)).continue_ = false)

theorem Serves.agree {conversation : Conversation Talk} {views views' : Nat → View}
    {initial : Talk} (serves : conversation.Serves views initial)
    (agree : ∀ t, (views t).Agrees (views' t)) : conversation.Serves views' initial := by
  have waits : ∀ t, (views' t).Waits ↔ (views t).Waits := by
    intro t
    rw [View.Waits, View.Waits, (agree t).cpu]
  have button : ∀ t, (views' t).continue_ = (views t).continue_ := fun t => (agree t).continue_
  obtain ⟨talk, held⟩ := serves.held
  refine ⟨⟨talk, ?_, ?_, ?_, ?_, ?_⟩, ?_, ?_, ?_⟩
  · simpa only [waits] using held.first
  · simpa only [waits] using held.stands
  · rintro t u ⟨order, ends, begins, between⟩
    simp only [waits] at ends begins between
    obtain ⟨v, after, before, turned⟩ := held.turns t u ⟨order, ends, begins, between⟩
    exact ⟨v, after, before, (agree v).sw.symm ▸ turned⟩
  · intro t paused
    rw [(agree t).cpu]
    exact conversation.shows_common (agree t).memory (held.shows t ((waits t).mp paused))
  · simpa only [waits, button] using held.returns
  · simpa only [waits] using serves.waits
  · simpa only [waits] using serves.lasts
  · simpa only [waits, button] using serves.ends

/-- The same as a dialogue.  When the button has been used the outcome is still open: it
depends on the switches of the next load. -/
def dialogue : Dialogue (BitVec 10 → Talk) where
  read _ sw outcome := fun _ => outcome sw
  press _ outcome := conversation.turn (outcome 0#10)
  Shows outcome hexData led memory :=
    (∀ sw, outcome sw = outcome 0#10) ∧ conversation.Shows (outcome 0#10) hexData led memory
  home := conversation.home
  AtHome outcome := conversation.AtHome (outcome 0#10)

/-- The outcome is known. -/
abbrev settled (talk : Talk) (_ : BitVec 10) : Talk := talk

section Step

open Dialogue (laps_of_load laps_of_pause)

variable {conversation} {Cut : Arch × (BitVec 10 → Talk) → Prop} {low high : BitVec 8} {pc : Word}
  {register : RegisterFile} {flags : Flags} {memory : BitVec 8 → Word} {hexData : Word}
  {talk : Talk} {outcome : BitVec 10 → Talk}

/-- The program waits and takes its turn. -/
theorem laps_of_wait (shipped : Shipped low high memory) (ledVect12 : BitVec 12)
    (held : ShippedAt low high pc (.pse ledVect12)) (inside : pc ≤ 254#16)
    (shows : conversation.Shows talk hexData (ledVect12.extractLsb' 0 10) memory)
    (rest : conversation.dialogue.Laps Cut
      (⟨pc + 1#16, register, flags, memory, hexData⟩, conversation.turn talk)) :
    conversation.dialogue.Laps Cut (⟨pc, register, flags, memory, hexData⟩, settled talk) :=
  laps_of_pause shipped ledVect12 held inside ⟨fun _ => rfl, shows⟩ rest

/-- The load that the turn depends on. -/
theorem laps_of_reading (shipped : Shipped low high memory) (dr baseR : BitVec 3)
    (offset6 : BitVec 6) (held : ShippedAt low high pc (.ldr dr baseR offset6))
    (inside : pc ≤ 254#16) (accesses : (Instr.ldr dr baseR offset6).Accesses register)
    (rest : ∀ env, conversation.dialogue.Laps Cut
      (Arch.exec ⟨pc + 1#16, register, flags, memory, hexData⟩ env (.ldr dr baseR offset6),
        settled (outcome env.loadSwitches))) :
    conversation.dialogue.Laps Cut (⟨pc, register, flags, memory, hexData⟩, outcome) :=
  laps_of_load shipped dr baseR offset6 held inside accesses rest

/-- A known outcome stays until the next wait ends. -/
theorem record_settled {env : Env} {arch : Arch}
    (plain : ¬ (decode (arch.fetched env)).Pauses) :
    conversation.dialogue.record env arch (settled talk) = settled talk := by
  rw [Dialogue.record, if_neg plain]
  exact ite_self _

theorem conducts_of_waits (inside : conversation.home ≤ 254#16) (ledVect12 : BitVec 12)
    (waits : ∀ state, Cut state → state.1.pc = conversation.home ∧
      (∀ env, decode (state.1.fetched env) = .pse ledVect12) ∧
      ∃ talk, state.2 = settled talk ∧ conversation.AtHome talk ∧
        conversation.Shows talk state.1.hexData (ledVect12.extractLsb' 0 10) state.1.memory)
    (rest : ∀ arch talk, Cut (arch, settled talk) → conversation.dialogue.Laps Cut
      ({ arch with pc := conversation.home + 1#16 }, conversation.turn talk)) :
    conversation.dialogue.Conducts Cut := by
  refine Dialogue.conducts_of_waits inside ledVect12 ?_ ?_
  · rintro ⟨arch, outcome⟩ cut
    obtain ⟨address, pauses, talk, rfl, home, shows⟩ := waits (arch, outcome) cut
    exact ⟨address, ⟨pauses, fun _ => rfl, shows⟩, home⟩
  · rintro arch outcome cut
    obtain ⟨-, -, talk, rfl, -⟩ := waits (arch, outcome) cut
    exact rest arch talk cut

end Step

section Turn

variable {conversation} {views : Nat → View} {initial : Talk} {t u : Nat}

theorem talkAt_succ {Talk : Type u} (dialogue : Dialogue Talk) (views : Nat → View)
    (initial : Talk) (t : Nat) :
    dialogue.talkAt views initial (t + 1) =
      dialogue.observe (views t) (dialogue.talkAt views initial t) := rfl

/-- Unless the button is used, at most the outcome becomes known. -/
theorem observe_of_running (running : ¬ (views t).Waits) (outcome : BitVec 10 → Talk) :
    conversation.dialogue.observe (views t) outcome = outcome ∨
      conversation.dialogue.observe (views t) outcome = settled (outcome (views t).sw) := by
  rw [Dialogue.observe]
  split_ifs with loads leaves
  · exact Or.inr rfl
  · exact absurd (Or.inr leaves.1) running
  · exact Or.inl rfl

/-- Where no wait ends, the switches are looked at once or not at all. -/
theorem outcome_between {outcome : BitVec 10 → Talk} (begun : t ≤ u)
    (opens : conversation.dialogue.talkAt views (settled initial) t = outcome)
    (running : ∀ v, t ≤ v → v < u → ¬ (views v).Waits) :
    conversation.dialogue.talkAt views (settled initial) u = outcome ∨
      ∃ v, t ≤ v ∧ v < u ∧ conversation.dialogue.talkAt views (settled initial) u =
        settled (outcome (views v).sw) := by
  induction u, begun using Nat.le_induction with
  | base => exact Or.inl opens
  | succ u begun inductionHypothesis =>
      have earlier := inductionHypothesis fun v after before =>
        running v after (Nat.lt_succ_of_lt before)
      have quiet := @observe_of_running _ conversation _ _
        (running u begun (Nat.lt_succ_self u))
      rw [talkAt_succ]
      rcases earlier with unknown | ⟨v, after, before, known⟩
      · rw [unknown]
        rcases quiet outcome with same | read
        · exact Or.inl same
        · exact Or.inr ⟨u, begun, Nat.lt_succ_self u, read⟩
      · refine Or.inr ⟨v, after, Nat.lt_succ_of_lt before, ?_⟩
        rw [known]
        rcases quiet (settled (outcome (views v).sw)) with same | read
        · exact same
        · exact read

end Turn

section Run

open TestTop (FetchesAt Pressed)
open Dialogue (viewAt)

variable {conversation} {inputs : Nat → TestTop.Input} {start : TestTop.State} {initial : Talk}
  {t u : Nat} {Cut : Arch × (BitVec 10 → Talk) → Prop}

/-- The dialogue in cycle `t`, if the machine waits there. -/
abbrev outcomeOf (conversation : Conversation Talk) (inputs : Nat → TestTop.Input)
    (start : TestTop.State) (initial : Talk) (t : Nat) : Talk :=
  conversation.dialogue.talkOf inputs start (settled initial) t 0#10

theorem pauseIR2_of_transfer {input : TestTop.Input} {state : TestTop.State}
    (entered : (TestTop.transfer input state).cpu.state = .pauseIR2) :
    state.cpu.state.Paused ∧ input.continue_ = true := by
  let released : Input := { TestTop.cpuInput input state with reset := false }
  have step : (state.cpu.step released).state = .pauseIR2 := by
    rw [Cpu.step_eq_transfer _ _ rfl]
    exact entered
  obtain ⟨paused, pressed, -⟩ := Cpu.step_pauseIR2 released _ step
  exact ⟨paused, pressed⟩

theorem waits_succ
    (waits : (viewAt inputs (Clocked.run TestTop.transfer inputs start) t).Waits) :
    (viewAt inputs (Clocked.run TestTop.transfer inputs start) (t + 1)).cpu.state =
      if (inputs t).continue_ then .pauseIR2
      else if (Clocked.run TestTop.transfer inputs start t).cpu.state = .pauseIR1 then .pauseIR1
      else .s18 :=
  (TestTop.transfer_pause _ _ waits).2

/-- A wait begins in `PauseIR1`, which is not left for a fetch. -/
theorem lasts_of_run
    (running : ¬ (viewAt inputs (Clocked.run TestTop.transfer inputs start) t).Waits)
    (waits : (viewAt inputs (Clocked.run TestTop.transfer inputs start) (t + 1)).Waits) :
    (viewAt inputs (Clocked.run TestTop.transfer inputs start) (t + 2)).Waits := by
  have first : (Clocked.run TestTop.transfer inputs start (t + 1)).cpu.state = .pauseIR1 := by
    rcases waits with first | second
    · exact first
    · exact absurd (pauseIR2_of_transfer second).1 running
  rw [View.Waits, waits_succ waits, if_pos first]
  split
  · exact Or.inr rfl
  · exact Or.inl rfl

theorem ends_of_run
    (waits : (viewAt inputs (Clocked.run TestTop.transfer inputs start) t).Waits)
    (waits' : (viewAt inputs (Clocked.run TestTop.transfer inputs start) (t + 1)).Waits) :
    ¬ (viewAt inputs (Clocked.run TestTop.transfer inputs start) (t + 2)).Waits ↔
      (inputs t).continue_ = true ∧ (inputs (t + 1)).continue_ = false := by
  have second : (Clocked.run TestTop.transfer inputs start (t + 1)).cpu.state = .pauseIR1 ↔
      (inputs t).continue_ = false := by
    have state : (Clocked.run TestTop.transfer inputs start (t + 1)).cpu.state = _ :=
      waits_succ waits
    have still := waits'
    rw [View.Waits, waits_succ waits] at still
    rw [state]
    cases pressed : (inputs t).continue_ with
    | true => simp
    | false =>
        rw [pressed, if_neg Bool.false_ne_true] at still
        split at still
        case isTrue first => simp [first]
        case isFalse => exact absurd still (by decide)
  rw [View.Waits, waits_succ waits']
  simp only [second]
  cases (inputs t).continue_ <;> cases (inputs (t + 1)).continue_ <;> simp [Isdu.Paused]

theorem leaves_of_ends
    (waits : (viewAt inputs (Clocked.run TestTop.transfer inputs start) t).Waits)
    (left : ¬ (viewAt inputs (Clocked.run TestTop.transfer inputs start) (t + 1)).Waits) :
    (Clocked.run TestTop.transfer inputs start t).cpu.state = .pauseIR2 ∧
      (inputs t).continue_ = false := by
  rw [View.Waits, waits_succ waits] at left
  rcases waits with first | second
  · have first' : (Clocked.run TestTop.transfer inputs start t).cpu.state = .pauseIR1 := first
    rw [if_pos first'] at left
    cases pressed : (inputs t).continue_ <;> simp [pressed, Isdu.Paused] at left
  · refine ⟨second, ?_⟩
    cases pressed : (inputs t).continue_ with
    | false => rfl
    | true => simp [pressed, Isdu.Paused] at left

section Serving

variable (conducts : conversation.dialogue.Conducts Cut) (fetching : FetchesAt inputs start 0)
  (initially : conversation.dialogue.Laps Cut (start.arch, settled initial))

include conducts fetching initially

theorem held_of_conducts :
    conversation.Held (viewAt inputs (Clocked.run TestTop.transfer inputs start)) initial
      (conversation.outcomeOf inputs start initial) where
  first := by
    intro t _ quiet
    rcases outcome_between (Nat.zero_le t) rfl fun v _ before => quiet v before with
      same | ⟨v, -, -, known⟩
    · exact congrFun same 0#10
    · exact congrFun known 0#10
  stands := by
    intro t waits waits'
    have same : conversation.dialogue.talkOf inputs start (settled initial) (t + 1) =
        conversation.dialogue.talkOf inputs start (settled initial) t := by
      apply Dialogue.observe_other
      · intro loading
        rw [View.Waits, loading] at waits
        exact absurd waits (by decide)
      · rintro ⟨second, released⟩
        have second' : (Clocked.run TestTop.transfer inputs start t).cpu.state = .pauseIR2 :=
          second
        have released' : (inputs t).continue_ = false := released
        rw [View.Waits, waits_succ waits, second', released'] at waits'
        exact absurd waits' (by decide)
    exact congrFun same 0#10
  turns := by
    intro t u next
    have running := next.between (t + 1) (Nat.lt_succ_self t) next.order
    obtain ⟨second, released⟩ := leaves_of_ends next.ends running
    have loading : (Clocked.run TestTop.transfer inputs start t).cpu.state ≠ .s25_4 :=
      fun loading => nomatch second.symm.trans loading
    have opens : conversation.dialogue.talkOf inputs start (settled initial) (t + 1) =
        conversation.turn (conversation.outcomeOf inputs start initial t) := by
      rw [Dialogue.talkOf, talkAt_succ, Dialogue.observe, viewAt, if_neg loading,
        if_pos ⟨second, released⟩]
      rfl
    have shows := Dialogue.shows_of_conducts conducts fetching initially next.begins
    rcases outcome_between (Nat.le_of_lt next.order) opens
      (fun v after before => next.between v after before) with same | ⟨v, after, before, known⟩
    · refine ⟨t + 1, Nat.lt_succ_self t, next.order, ?_⟩
      rw [outcomeOf, ← shows.1 (inputs (t + 1)).sw, Dialogue.talkOf, same]
      rfl
    · exact ⟨v, after, before, congrFun known 0#10⟩
  shows t waits := (Dialogue.shows_of_conducts conducts fetching initially waits).2
  returns down up := Dialogue.returns_of_conducts conducts fetching initially ⟨down, up⟩

theorem serves_of_conducts :
    conversation.Serves (viewAt inputs (Clocked.run TestTop.transfer inputs start)) initial where
  held := ⟨_, held_of_conducts conducts fetching initially⟩
  waits := Dialogue.waits_of_conducts conducts fetching initially
  lasts _ running waits := lasts_of_run running waits
  ends _ waits waits' := ends_of_run waits waits'

end Serving

end Run

end Conversation

/-- A shipped program that holds a conversation, selected by its address on the switches. -/
structure Program where
  Talk : Type
  conversation : Conversation Talk
  initial : Talk
  entry : BitVec 10
  Cut : Arch × (BitVec 10 → Talk) → Prop
  conducts : conversation.dialogue.Conducts Cut
  begins : ∀ arch : Arch, arch.pc = entry.setWidth 16 → arch.register 0#3 = 0#16 →
    Shipped 0#8 172#8 arch.memory →
    conversation.dialogue.Laps Cut (arch, Conversation.settled initial)

end DigitalSystems.Slc3
