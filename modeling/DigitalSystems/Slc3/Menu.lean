import DigitalSystems.Slc3.BubbleSort
import DigitalSystems.Slc3.Conversation
import DigitalSystems.Slc3.DisplayFunction
import DigitalSystems.Slc3.Session

/-!
# The shipped bubble sort menu

The program at the addresses 90 to 118 with the routines it calls, the sort at 119 and the
display function at 137: together they conduct a session with the person at the board.
-/

namespace DigitalSystems.Slc3.Menu

open Isa Assembler
open Clocked (Inevitable)
open Conversation (settled laps_of_reading laps_of_wait)
open Dialogue (laps_of_rest)
open DisplayFunction (vector checkpoint Holds Observes)

def Stored (words : Words) (memory : BitVec 8 → Word) : Prop :=
  ∀ i, i < 16 → memory (BitVec.ofNat 8 (74 + i)) = words.word i

instance (words : Words) (memory : BitVec 8 → Word) : Decidable (Stored words memory) :=
  inferInstanceAs (Decidable (∀ i, i < 16 → _))

/-- The program and its words; any vector may be in the pause at 148. -/
structure Installed (words : Words) (memory : BitVec 8 → Word) : Prop where
  code : Shipped 90#8 136#8 memory
  before : Shipped 137#8 147#8 memory
  after : Shipped 149#8 155#8 memory
  pause : ∃ ledVect12, memory 148#8 = opPSE ledVect12
  stored : Stored words memory

/-- Of the words behind the program the sixteen that are shown. -/
theorem Stored.agree {words : Words} {memory memory' : BitVec 8 → Word}
    (agree : ∀ address, address ≤ 254#8 → memory' address = memory address)
    (stored : Stored words memory) : Stored words memory' := by
  intro i inside
  rw [agree _ (by rw [BitVec.le_def, DisplayFunction.toNat_address inside]; simp; omega)]
  exact stored i inside

def conversation : Conversation Session where
  turn := Session.turn
  Shows session hexData led memory := session.Shows hexData led ∧ Stored session.words memory
  shows_common agree shows := ⟨shows.1, shows.2.agree agree⟩
  home := 94#16
  AtHome session := session.phase = .selecting

structure AtMenu (state : Arch × (BitVec 10 → Session)) : Prop where
  address : state.1.pc = 94#16
  zero : state.1.register 0#3 = 0#16
  pointer : state.1.register 6#3 = 74#16
  selecting : ∃ words, Installed words state.1.memory ∧ state.2 = settled ⟨words, .selecting⟩

abbrev Laps : Arch × (BitVec 10 → Session) → Prop := conversation.dialogue.Laps AtMenu

section Memory

variable {words : Words} {memory : BitVec 8 → Word} {i : Nat}

theorem Stored.update (stored : Stored words memory) {address : BitVec 8}
    (behind : 89#8 < address) (value : Word) :
    Stored words (Function.update memory address value) := by
  intro i inside
  have apart : BitVec.ofNat 8 (74 + i) ≠ address := by
    rintro rfl
    rw [BitVec.lt_def, DisplayFunction.toNat_address inside] at behind
    change 89 < 74 + i at behind
    omega
  rw [Function.update_of_ne apart]
  exact stored i inside

/-- A store to one of the words. -/
theorem Stored.enter (stored : Stored words memory) (inside : i < 16) (sw : BitVec 10) :
    Stored (words.enter i sw)
      (Function.update memory (BitVec.ofNat 8 (74 + i)) (sw.setWidth 16)) := by
  intro j below
  rw [words.word_enter inside]
  by_cases same : j = i
  · subst same
    rw [Function.update_self, Function.update_self]
  · have apart : BitVec.ofNat 8 (74 + j) ≠ BitVec.ofNat 8 (74 + i) := by
      intro equal
      have value := congrArg BitVec.toNat equal
      rw [DisplayFunction.toNat_address below, DisplayFunction.toNat_address inside] at value
      omega
    rw [Function.update_of_ne apart, Function.update_of_ne same]
    exact stored j below

namespace Installed

theorem holds (installed : Installed words memory) {ledVect12 : BitVec 12}
    (pause : memory 148#8 = opPSE ledVect12) : Holds words.word ledVect12 memory :=
  ⟨installed.before, installed.after, pause, installed.stored⟩

/-- A store behind the program. -/
theorem update (installed : Installed words memory) {address : BitVec 8}
    (behind : 155#8 < address) (value : Word) :
    Installed words (Function.update memory address value) := by
  obtain ⟨code, before, after, ⟨ledVect12, pause⟩, stored⟩ := installed
  refine ⟨code.update (Or.inr ?_) value, before.update (Or.inr ?_) value,
    after.update (Or.inr behind) value, ⟨ledVect12, ?_⟩, stored.update ?_ value⟩
  · exact BitVec.lt_trans (by decide) behind
  · exact BitVec.lt_trans (by decide) behind
  · rw [Function.update_of_ne (BitVec.ne_of_lt (BitVec.lt_trans (by decide) behind))]
    exact pause
  · exact BitVec.lt_trans (by decide) behind

/-- Only the sixteen words differ. -/
theorem rewrite (installed : Installed words memory) {words' : Words}
    {memory' : BitVec 8 → Word}
    (elsewhere : ∀ address : BitVec 8, 89 < address.toNat → memory' address = memory address)
    (stored : Stored words' memory') : Installed words' memory' := by
  obtain ⟨code, before, after, ⟨ledVect12, pause⟩, -⟩ := installed
  have beyond : ∀ {first last : BitVec 8}, 89#8 < first → Shipped first last memory →
      Shipped first last memory' := by
    intro first last behind shipped address above below
    have far : 89 < address.toNat := Nat.lt_of_lt_of_le behind above
    rw [elsewhere address far]
    exact shipped address above below
  exact ⟨beyond (by decide) code, beyond (by decide) before, beyond (by decide) after,
    ⟨ledVect12, (elsewhere 148#8 (by decide)).trans pause⟩, stored⟩

theorem enter (installed : Installed words memory) (inside : i < 16) (sw : BitVec 10) :
    Installed (words.enter i sw)
      (Function.update memory (BitVec.ofNat 8 (74 + i)) (sw.setWidth 16)) := by
  refine installed.rewrite (fun address far => ?_) (installed.stored.enter inside sw)
  refine Function.update_of_ne ?_ _ _
  rintro rfl
  rw [DisplayFunction.toNat_address inside] at far
  omega

end Installed

end Memory

theorem turn_selecting (words : Words) (sw : BitVec 10) :
    conversation.turn ⟨words, .selecting⟩ sw = Session.read ⟨words, .selecting⟩ sw := rfl

theorem turn_entering (words : Words) (i : Fin 16) (sw : BitVec 10) :
    conversation.turn ⟨words, .entering i⟩ sw =
      ⟨words.enter i sw, .on .entering (i + 1)⟩ := rfl

theorem turn_showing (words : Words) (i : Fin 16) :
    conversation.turn ⟨words, .showing i⟩ = settled ⟨words, .on .showing (i + 1)⟩ := rfl

section Routines

variable {words : Words} {memory : BitVec 8 → Word} {hexData r1 r2 r3 r4 r5 r7 : Word}
  {flags : Flags}

/-- The machine in the program: `R0` is zero, `R6` points to the words. -/
abbrev serving (memory : BitVec 8 → Word) (hexData pc r1 r2 r3 r4 r5 r7 : Word)
    (flags : Flags) : Arch :=
  ⟨pc, file 0#16 r1 r2 r3 r4 r5 74#16 r7, flags, memory, hexData⟩

/-- Each routine returns to a branch back to the menu. -/
theorem laps_of_back {register : RegisterFile} (zero : register 0#3 = 0#16)
    (pointer : register 6#3 = 74#16) (installed : Installed words memory)
    (signed : ∃ value, flags = signClass value) {pc : Word}
    (back : pc = 100#16 ∨ pc = 104#16 ∨ pc = 108#16) :
    Laps (⟨pc, register, flags, memory, hexData⟩, settled ⟨words, .selecting⟩) := by
  obtain ⟨value, rfl⟩ := signed
  have menu : ∀ flags,
      Laps (⟨94#16, register, flags, memory, hexData⟩, settled ⟨words, .selecting⟩) :=
    fun flags => .reached ⟨rfl, zero, pointer, words, installed, rfl⟩
  rcases back with rfl | rfl | rfl
  · refine laps_of_rest installed.code (.br 0b111#3 (-7)) (by decide) (by decide) trivial
      fun _ => ?_
    rw [Arch.exec_br, if_pos selects_nzp]
    exact menu _
  · refine laps_of_rest installed.code (.br 0b111#3 (-11)) (by decide) (by decide) trivial
      fun _ => ?_
    rw [Arch.exec_br, if_pos selects_nzp]
    exact menu _
  · refine laps_of_rest installed.code (.br 0b111#3 (-15)) (by decide) (by decide) trivial
      fun _ => ?_
    rw [Arch.exec_br, if_pos selects_nzp]
    exact menu _

/-- Addresses 110 to 117: word `i` is typed in. -/
theorem entry_round (installed : Installed words memory) {i : Nat} (inside : i < 16)
    (rest : ∀ (env : Env) words memory hexData r2 r3 r5, Installed words memory →
      Laps (serving memory hexData (if i + 1 < 16 then 110#16 else 118#16)
        (BitVec.ofNat 16 (i + 1)) r2 r3 r4 r5 r7 (signClass env.undriven),
        settled ⟨words, .on .entering (i + 1)⟩)) :
    Laps (serving memory hexData 110#16 (BitVec.ofNat 16 i) r2 r3 r4 r5 r7 flags,
      settled ⟨words, .on .entering i⟩) := by
  have next : BitVec.ofNat 16 i + 1#16 = BitVec.ofNat 16 (i + 1) := BitVec.ofNat_add_ofNat _ _
  have pointer : 74#16 + BitVec.ofNat 16 i = BubbleSort.cell 74 i := BitVec.ofNat_add_ofNat _ _
  have elsewhere : BubbleSort.cell 74 i ≠ 0xFFFF#16 :=
    BubbleSort.cell_ne_port (by decide) inside
  have here : MemoryEquivalence.Common (BubbleSort.cell 74 i + 0#16) := by
    rw [BitVec.add_zero]
    exact BubbleSort.common_cell (by decide) inside
  rw [Phase.on_of_lt _ inside]
  refine laps_of_rest installed.code (.str 1#3 0#3 (-1)) (by decide) (by decide)
    common_port fun _ => ?_
  simp only [Arch.exec_str, BitVec.reduceAdd, file_r0, file_r1, BitVec.reduceNeg,
    BitVec.reduceSignExtend, BitVec.zero_add, Arch.write_port]
  have shown := installed.update (show 155#8 < 0xFF#8 by decide) (BitVec.ofNat 16 i)
  refine laps_of_wait shown.code 0xC01#12 (by decide) (by decide) ⟨⟨rfl, rfl⟩, shown.stored⟩ ?_
  refine laps_of_reading shown.code 2#3 0#3 (-1) (by decide) (by decide) common_port
    fun env => ?_
  rw [turn_entering]
  simp only [Arch.exec_ldr, BitVec.reduceAdd, file_r0, BitVec.reduceNeg,
    BitVec.reduceSignExtend, BitVec.zero_add, Arch.read_port, update_file_r2]
  refine laps_of_rest shown.code (.add 5#3 6#3 (.register 1#3)) (by decide)
    (by decide) trivial fun _ => ?_
  simp only [Arch.exec_add, BitVec.reduceAdd, file_r1, file_r6, pointer, update_file_r5]
  refine laps_of_rest shown.code (.str 2#3 5#3 0) (by decide) (by decide) here
    fun _ => ?_
  simp only [Arch.exec_str, BitVec.reduceAdd, file_r2, file_r5, BitVec.reduceSignExtend,
    BitVec.add_zero, Arch.write_memory _ elsewhere, BubbleSort.cell_setWidth]
  have entered := shown.enter inside env.loadSwitches
  refine laps_of_rest entered.code (.add 1#3 1#3 (.immediate 1)) (by decide)
    (by decide) trivial fun _ => ?_
  simp only [Arch.exec_addi, BitVec.reduceAdd, file_r1, BitVec.reduceSignExtend, next,
    update_file_r1]
  refine laps_of_rest entered.code (.add 3#3 1#3 (.immediate (-16))) (by decide)
    (by decide) trivial fun _ => ?_
  simp only [Arch.exec_addi, BitVec.reduceAdd, file_r1, BitVec.reduceNeg,
    BitVec.reduceSignExtend, update_file_r3]
  refine laps_of_rest entered.code (.br 0b100#3 (-8)) (by decide) (by decide) trivial fun env => ?_
  simp only [Arch.exec_br, BitVec.reduceAdd, selects_n,
    DisplayFunction.counter_toInt_neg inside, BitVec.reduceNeg, BitVec.reduceSignExtend]
  exact rest env _ _ _ _ _ _ entered

theorem entry_loop : ∀ (rounds i : Nat) (words : Words) (memory : BitVec 8 → Word)
    (hexData r2 r3 r5 : Word) (flags : Flags), i + rounds + 1 = 16 → Installed words memory →
    Laps (serving memory hexData 110#16 (BitVec.ofNat 16 i) r2 r3 r4 r5 100#16 flags,
      settled ⟨words, .on .entering i⟩) := by
  intro rounds
  induction rounds with
  | zero =>
      intro i words memory hexData r2 r3 r5 flags total installed
      obtain rfl : i = 15 := by omega
      refine entry_round installed (by decide) fun env words memory hexData r2 r3 r5 entered => ?_
      refine laps_of_rest entered.code (.jmp 7#3) (by decide) (by decide) trivial fun _ => ?_
      exact laps_of_back rfl rfl entered ⟨_, rfl⟩ (Or.inl rfl)
  | succ rounds inductionHypothesis =>
      intro i words memory hexData r2 r3 r5 flags total installed
      refine entry_round installed (by omega) fun env words memory hexData r2 r3 r5 entered => ?_
      rw [if_pos (by omega)]
      exact inductionHypothesis (i + 1) words memory hexData r2 r3 r5 _ (by omega) entered

/-- The entry function, called from 99. -/
theorem laps_of_entry (installed : Installed words memory) :
    Laps (serving memory hexData 109#16 r1 r2 r3 r4 r5 100#16 flags,
      settled ⟨words, .on .entering 0⟩) := by
  refine laps_of_rest installed.code (.and 1#3 1#3 (.immediate 0)) (by decide)
    (by decide) trivial fun _ => ?_
  simp only [Arch.exec_andi, BitVec.reduceAdd, file_r1, BitVec.reduceSignExtend,
    BitVec.and_zero, update_file_r1]
  exact entry_loop 15 0 words memory hexData r2 r3 r5 _ rfl installed

theorem sorted_of_sorts (installed : Installed words memory) {before after : Arch}
    (view : before.memory = memory) (sorts : BubbleSort.Sorts 74 before after) :
    Installed words.sort after.memory := by
  subst view
  refine installed.rewrite (fun address far => sorts.elsewhere address (Or.inr (by omega))) ?_
  intro i inside
  refine (words.word_sort sorts.ordered ?_ inside).symm
  refine sorts.permuted.trans (.of_eq (List.map_congr_left fun i member => ?_))
  exact installed.stored i (List.mem_range.mp member)

/-- The sort function, called from 103. -/
theorem laps_of_sort (installed : Installed words memory) {value : Word} :
    Laps (serving memory hexData 119#16 r1 r2 r3 r4 r5 104#16 (signClass value),
      settled ⟨words.sort, .selecting⟩) := by
  have small : ∀ k, k < 16 → (memory (BitVec.ofNat 8 (74 + k))).toNat < 2 ^ 15 := by
    intro k inside
    rw [installed.stored k inside]
    exact words.word_small inside
  have routine : Shipped 119#8 136#8 memory := installed.code.within (by decide)
  have sorting := BubbleSort.returns_within (show 74 + 15 ≤ 254 by decide)
    (Or.inl (by decide)) (rfl : (serving memory hexData 119#16 r1 r2 r3 r4 r5 104#16
      (signClass value)).pc = 119#16) rfl rfl routine small
  have signed := sorting.keeping (fun arch => ∃ value, arch.flags = signClass value)
    (fun env _ => signed_execute env) ⟨value, rfl⟩
  have unobserved : ∀ arch : Arch, arch.Within 119#8 136#8 →
      ∀ env, conversation.dialogue.record env arch (settled ⟨words.sort, .selecting⟩) =
        settled ⟨words.sort, .selecting⟩ :=
    fun arch within env => Conversation.record_settled (within.plain env)
  have unrecorded := signed.silent fun env arch within => unobserved arch within.1 env
  refine (unrecorded.mono (fun state passed =>
    ⟨passed.1.1.contained (by decide), Or.inl passed.1.1.plain⟩) fun _ goal => goal).trans ?_
  rintro ⟨⟨pc, register, flags, memory, hexData⟩, outcome⟩ ⟨⟨⟨rfl, returns⟩, signed⟩, rfl⟩
  have inside : (136#16).toNat ≤ 254 := by decide
  refine .next ⟨⟨Or.inl inside, fun env => ?_⟩, Or.inl fun env => ?_⟩ fun env => ?_
  · rw [(returns env).1]
    trivial
  · rw [(returns env).1]
    exact id
  · have sorts := (returns env).2
    have plain :
        ¬ (decode (Arch.fetched ⟨136#16, register, flags, memory, hexData⟩ env)).Pauses := by
      rw [(returns env).1]
      exact id
    rw [Clocked.traced, Conversation.record_settled plain]
    exact laps_of_back sorts.r0 sorts.r6 (sorted_of_sorts installed rfl sorts)
      (signed_execute env signed) (Or.inr (Or.inl sorts.returns))

theorem observes_session {ledVect12 : BitVec 12} :
    Observes conversation.dialogue.record conversation.dialogue.Attends
      (fun i => settled ⟨words, .on .showing i⟩)
      (fun memory => Shipped 90#8 136#8 memory ∧ Stored words memory) ledVect12 words.word where
  rest arch i within _ :=
    ⟨⟨within.contained (by decide), Or.inl within.plain⟩,
      fun env => Conversation.record_settled (within.plain env)⟩
  pause := by
    rintro ⟨pc, register, flags, memory, hexData⟩ i inside rfl rfl pause ⟨-, stored⟩
    have pauses : ∀ env, decode (Arch.fetched
        ⟨148#16, register, flags, memory, words.word i⟩ env) = .pse (checkpoint ledVect12 i) := by
      intro env
      rw [← DisplayFunction.decode_opPSE, ← pause]
      rfl
    have inRange : (148#16).toNat ≤ 254 := by decide
    have idle : ¬ (Instr.pse (checkpoint ledVect12 i)).Loads := id
    have waits : (Instr.pse (checkpoint ledVect12 i)).Pauses := trivial
    refine ⟨⟨⟨Or.inl inRange, fun env => ?_⟩,
      Or.inr ⟨checkpoint ledVect12 i, pauses, fun _ => rfl, ?_, stored⟩⟩, fun env => ?_⟩
    · rw [pauses env]
      trivial
    · rw [Phase.on_of_lt _ inside]
      refine ⟨rfl, fun later => ?_⟩
      rw [checkpoint, if_neg later]
      exact DisplayFunction.vector_led i
    · rw [Dialogue.record, pauses env, Phase.on_of_lt _ inside, if_neg idle, if_pos waits]
      exact turn_showing words ⟨i, inside⟩
  kept := by
    rintro memory address value here ⟨code, stored⟩
    have behind : 136#8 < address := by
      rcases here with rfl | rfl <;> decide
    exact ⟨code.update (Or.inr behind) value,
      stored.update (BitVec.lt_trans (by decide) behind) value⟩

/-- The display function, called from 107. -/
theorem laps_of_display (installed : Installed words memory) :
    Laps (serving memory hexData 137#16 r1 r2 r3 r4 r5 108#16 flags,
      settled ⟨words, .on .showing 0⟩) := by
  obtain ⟨ledVect12, pause⟩ := installed.pause
  refine DisplayFunction.call_of_entry observes_session (installed.holds pause)
    ⟨installed.code, installed.stored⟩ fun env memory hexData r4 held kept => ?_
  have intact : Installed words memory :=
    ⟨kept.1, held.before, held.after, ⟨_, held.pause⟩, kept.2⟩
  refine laps_of_rest held.after (.jmp 7#3) (by decide) (by decide) trivial fun _ => ?_
  exact laps_of_back rfl rfl intact ⟨_, rfl⟩ (Or.inr (Or.inr rfl))

end Routines

section Menu

variable {words : Words} {memory : BitVec 8 → Word} {hexData r1 r2 r3 r4 r5 r7 : Word}
  {flags : Flags}

/-- What the decrements leave of a choice. -/
theorem choice_toInt {sw : BitVec 10} {offset : Word} (k : BitVec 10)
    (opposite : offset = -k.setWidth 16) :
    (sw.setWidth 16 + offset).toInt = 0 ↔ sw = k := by
  subst opposite
  rw [show (0 : Int) = (0#16).toInt from rfl, BitVec.toInt_inj]
  bv_omega

/-- Addresses 101 to 107, where the choice is known not to be 1. -/
theorem laps_of_choice (installed : Installed words memory) {sw : BitVec 10}
    (other : sw ≠ 1#10) :
    Laps (serving memory hexData 101#16 (sw.setWidth 16 + 0xFFFF#16) r2 r3 r4 r5 r7 flags,
      settled (Session.read ⟨words, .selecting⟩ sw)) := by
  refine laps_of_rest installed.code (.add 1#3 1#3 (.immediate (-1))) (by decide)
    (by decide) trivial fun _ => ?_
  simp only [Arch.exec_addi, BitVec.reduceAdd, file_r1, BitVec.reduceNeg,
    BitVec.reduceSignExtend, BitVec.add_assoc, update_file_r1]
  refine laps_of_rest installed.code (.br 0b101#3 2) (by decide) (by decide) trivial fun _ => ?_
  simp only [Arch.exec_br, BitVec.reduceAdd, selects_np, BitVec.reduceSignExtend,
    choice_toInt 2#10 (show 0xFFFE#16 = -(2#10).setWidth 16 by decide), ite_not]
  split
  case isTrue sort =>
    subst sort
    refine laps_of_rest installed.code (.jsr 15) (by decide) (by decide) trivial fun _ => ?_
    simp only [Arch.exec_jsr, BitVec.reduceAdd, BitVec.reduceSignExtend, update_file_r7]
    exact laps_of_sort installed
  case isFalse later =>
    refine laps_of_rest installed.code (.add 1#3 1#3 (.immediate (-1))) (by decide)
      (by decide) trivial fun _ => ?_
    simp only [Arch.exec_addi, BitVec.reduceAdd, file_r1, BitVec.reduceNeg,
      BitVec.reduceSignExtend, BitVec.add_assoc, update_file_r1]
    refine laps_of_rest installed.code (.br 0b101#3 (-13)) (by decide) (by decide) trivial
      fun _ => ?_
    simp only [Arch.exec_br, BitVec.reduceAdd, selects_np, BitVec.reduceNeg,
      BitVec.reduceSignExtend, choice_toInt 3#10 (show 0xFFFD#16 = -(3#10).setWidth 16 by decide),
      ite_not]
    split
    case isTrue display =>
      subst display
      refine laps_of_rest installed.code (.jsr 29) (by decide) (by decide) trivial fun _ => ?_
      simp only [Arch.exec_jsr, BitVec.reduceAdd, BitVec.reduceSignExtend, update_file_r7]
      exact laps_of_display installed
    case isFalse none =>
      have ignored : Session.read ⟨words, .selecting⟩ sw = ⟨words, .selecting⟩ := by
        rw [Session.read, if_neg other, if_neg later, if_neg none]
      rw [ignored]
      exact .reached ⟨rfl, rfl, rfl, _, installed, rfl⟩

/-- Addresses 95 to 99: the choice is read and compared with 0 and 1. -/
theorem laps_of_menu (installed : Installed words memory) :
    Laps (serving memory hexData 95#16 r1 r2 r3 r4 r5 r7 flags,
      conversation.turn ⟨words, .selecting⟩) := by
  refine laps_of_reading installed.code 1#3 0#3 (-1) (by decide) (by decide) common_port
    fun env => ?_
  rw [turn_selecting]
  simp only [Arch.exec_ldr, BitVec.reduceAdd, file_r0, BitVec.reduceNeg,
    BitVec.reduceSignExtend, BitVec.zero_add, Arch.read_port, update_file_r1]
  generalize env.loadSwitches = sw
  have compare : (sw.setWidth 16).toInt = 0 ↔ sw = 0#10 := by
    have difference : (sw.setWidth 16 + 0#16).toInt = 0 ↔ sw = 0#10 :=
      choice_toInt 0#10 (by decide)
    rwa [BitVec.add_zero] at difference
  refine laps_of_rest installed.code (.br 0b010#3 (-3)) (by decide) (by decide) trivial fun _ => ?_
  simp only [Arch.exec_br, BitVec.reduceAdd, selects_z, BitVec.reduceNeg,
    BitVec.reduceSignExtend, compare]
  split
  case isTrue zero =>
    subst zero
    exact .reached ⟨rfl, rfl, rfl, _, installed, rfl⟩
  case isFalse =>
    refine laps_of_rest installed.code (.add 1#3 1#3 (.immediate (-1))) (by decide)
      (by decide) trivial fun _ => ?_
    simp only [Arch.exec_addi, BitVec.reduceAdd, file_r1, BitVec.reduceNeg,
      BitVec.reduceSignExtend, update_file_r1]
    refine laps_of_rest installed.code (.br 0b101#3 2) (by decide) (by decide) trivial fun _ => ?_
    simp only [Arch.exec_br, BitVec.reduceAdd, selects_np, BitVec.reduceSignExtend,
      choice_toInt 1#10 (show 0xFFFF#16 = -(1#10).setWidth 16 by decide), ite_not]
    split
    case isTrue entry =>
      subst entry
      refine laps_of_rest installed.code (.jsr 9) (by decide) (by decide) trivial fun _ => ?_
      simp only [Arch.exec_jsr, BitVec.reduceAdd, BitVec.reduceSignExtend, update_file_r7]
      exact laps_of_entry installed
    case isFalse other => exact laps_of_choice installed other

/-- Addresses 90 to 93: `R0` is cleared, and `R6` gets the address of the words. -/
theorem laps_of_prologue {register : RegisterFile} (installed : Installed words memory) :
    Laps (⟨90#16, register, flags, memory, hexData⟩, settled ⟨words, .selecting⟩) := by
  rw [eq_file register]
  refine laps_of_rest installed.code (.and 0#3 0#3 (.immediate 0)) (by decide)
    (by decide) trivial fun _ => ?_
  simp only [Arch.exec_andi, BitVec.reduceAdd, file_r0, BitVec.reduceSignExtend,
    BitVec.and_zero, update_file_r0]
  refine laps_of_rest installed.code (.jsr 0) (by decide) (by decide) trivial fun _ => ?_
  simp only [Arch.exec_jsr, BitVec.reduceAdd, BitVec.reduceSignExtend, BitVec.add_zero,
    update_file_r7]
  refine laps_of_rest installed.code (.add 6#3 7#3 (.immediate (-16))) (by decide)
    (by decide) trivial fun _ => ?_
  simp only [Arch.exec_addi, BitVec.reduceAdd, file_r7, BitVec.reduceNeg,
    BitVec.reduceSignExtend, update_file_r6]
  refine laps_of_rest installed.code (.add 6#3 6#3 (.immediate (-2))) (by decide)
    (by decide) trivial fun _ => ?_
  simp only [Arch.exec_addi, BitVec.reduceAdd, file_r6, BitVec.reduceNeg,
    BitVec.reduceSignExtend, update_file_r6]
  exact .reached ⟨rfl, rfl, rfl, _, installed, rfl⟩

theorem conducts : conversation.dialogue.Conducts AtMenu := by
  refine Conversation.conducts_of_waits (by decide) 0x3FF#12 ?_ ?_
  · rintro ⟨⟨pc, register, flags, memory, hexData⟩, outcome⟩
      ⟨rfl, -, -, words, installed, rfl⟩
    have held : ShippedAt 90#8 136#8 94#16 (.pse 0x3FF#12) := by decide
    exact ⟨rfl, decode_fetched installed.code held, _, rfl, rfl, rfl, installed.stored⟩
  · rintro ⟨pc, register, flags, memory, hexData⟩ session
      ⟨rfl, zero, pointer, words, installed, known⟩
    obtain rfl : session = ⟨words, .selecting⟩ := congrFun known 0#10
    dsimp only at zero pointer installed
    rw [eq_file register, zero, pointer]
    exact laps_of_menu installed

theorem laps_of_entry_point {words : Words} {arch : Arch} (entry : arch.pc = 90#16)
    (installed : Installed words arch.memory) : Laps (arch, settled ⟨words, .selecting⟩) := by
  obtain ⟨pc, register, flags, memory, hexData⟩ := arch
  obtain rfl : pc = 90#16 := entry
  exact laps_of_prologue installed

end Menu

section Run

/-- Started at 90, the shipped menu conducts a session for ever, whatever is done at the
switches and the button. -/
theorem menu_serves (image : BitVec 8 → Word) (inputs : Nat → TestTop.Input)
    (running : ∀ t, (inputs t).reset = false) (start : TestTop.State) (words : Words)
    (fetching : start.cpu.state = .s18) (entry : start.cpu.pc = 90#16)
    (installed : Installed words start.mem.memArray) :
    conversation.Serves
      (Dialogue.viewAt inputs (Clocked.run (TestTop.step image) inputs start))
      ⟨words, .selecting⟩ := by
  rw [TestTop.runs_eq_transfer image inputs running]
  exact Conversation.serves_of_conducts conducts fetching (laps_of_entry_point entry installed)

/-- The words of the shipped image. -/
def shippedWords : Words where
  list := (memArray.drop 74).take 16
  length := by decide
  small := List.forall_iff_forall_mem.mp (by decide)

theorem installed_of_shipped {memory : BitVec 8 → Word} (shipped : Shipped 0#8 172#8 memory) :
    Installed shippedWords memory := by
  have stored : Stored shippedWords memoryContents := by decide
  refine ⟨shipped.within (by decide), shipped.within (by decide), shipped.within (by decide),
    ⟨0x802#12, shipped 148#8 (by decide) (by decide)⟩, fun i inside => ?_⟩
  rw [← stored i inside]
  apply shipped
  · exact BitVec.le_def.mpr (Nat.zero_le _)
  · rw [BitVec.le_def, DisplayFunction.toNat_address inside]
    change 74 + i ≤ 172
    omega

def program : Program where
  Talk := Session
  conversation := conversation
  initial := ⟨shippedWords, .selecting⟩
  entry := 90#10
  Cut := AtMenu
  conducts := conducts
  begins _ entry _ shipped := laps_of_entry_point entry (installed_of_shipped shipped)

def menuStart : TestTop.State where
  cpu := { Cpu.blank .s18 with pc := 90#16 }
  mem := { memArray := memoryContents, memOut := 0#16 }

/-- The words are looked at, with the button going up and down all the time. -/
def looking (t : Nat) : TestTop.Input :=
  { TestTop.Input.quiet with sw := 3#10, continue_ := t % 2 == 0 }

theorem menu_serves_menuStart :
    conversation.Serves
      (Dialogue.viewAt looking (Clocked.run (TestTop.step memoryContents) looking menuStart))
      ⟨shippedWords, .selecting⟩ :=
  menu_serves memoryContents looking (fun _ => rfl) menuStart shippedWords rfl rfl
    (installed_of_shipped fun _ _ _ => rfl)

end Run

end DigitalSystems.Slc3.Menu
