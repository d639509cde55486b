import DigitalSystems.Clocked.ByteLanes
import Mathlib.Logic.Function.Basic

/-!
# The dual-port memory `ONCHIPMEM`

A vendor block of 4096 words, so a parameter: a state, a clocked pair of ports and
two read outputs.  Port `a` serves the Avalon bus; port `b` only reads, in every
cycle.  `Onchipmem.Lawful` is what the generated parameters promise.
-/

namespace DigitalSystems.Vga

abbrev VramWord := BitVec 32

namespace Onchipmem

/-- The inputs of `ONCHIPMEM` in one clock cycle; `rden_b` is tied high, `wren_b` low. -/
structure Ports where
  addressA : BitVec 12
  addressB : BitVec 12
  byteenaA : BitVec 4
  dataA : VramWord
  rdenA : Bool
  wrenA : Bool

end Onchipmem

structure Onchipmem where
  State : Type
  step : Onchipmem.Ports → State → State
  word : State → BitVec 12 → VramWord
  qA : State → VramWord
  qB : State → VramWord

namespace Onchipmem

/-- The ports are registered on the clock and the outputs are not registered: a read
shows the word one edge after its request.  `qA` stays while `rdenA` is low, and a
word read by one port while the other writes it is left open. -/
structure Lawful (mem : Onchipmem) : Prop where
  word_write : ∀ ports state, ports.wrenA = true →
    mem.word (mem.step ports state) =
      Function.update (mem.word state) ports.addressA
        (Clocked.merge 8 ports.byteenaA ports.dataA (mem.word state ports.addressA))
  word_hold : ∀ ports state, ports.wrenA = false →
    mem.word (mem.step ports state) = mem.word state
  qA_read : ∀ ports state, ports.rdenA = true → ports.wrenA = false →
    mem.qA (mem.step ports state) = mem.word state ports.addressA
  qA_hold : ∀ ports state, ports.rdenA = false →
    mem.qA (mem.step ports state) = mem.qA state
  qB_read : ∀ ports state, (ports.wrenA = true → ports.addressA ≠ ports.addressB) →
    mem.qB (mem.step ports state) = mem.word state ports.addressB

def reference : Onchipmem where
  State := (BitVec 12 → VramWord) × VramWord × VramWord
  step ports state :=
    ( if ports.wrenA then
        Function.update state.1 ports.addressA
          (Clocked.merge 8 ports.byteenaA ports.dataA (state.1 ports.addressA))
      else state.1,
      if ports.rdenA then state.1 ports.addressA else state.2.1,
      state.1 ports.addressB )
  word state := state.1
  qA state := state.2.1
  qB state := state.2.2

theorem reference_lawful : reference.Lawful where
  word_write ports state writes := by simp [reference, writes]
  word_hold ports state idle := by simp [reference, idle]
  qA_read ports state reads _ := by simp [reference, reads]
  qA_hold ports state idle := by simp [reference, idle]
  qB_read _ _ _ := rfl

variable {mem : Onchipmem}

theorem Lawful.lane_step (lawful : mem.Lawful) (ports : Ports) (state : mem.State)
    (address : BitVec 12) (k : Nat) :
    Clocked.lane 8 (mem.word (mem.step ports state) address) k =
      if ports.wrenA = true ∧ ports.addressA = address ∧ ports.byteenaA.getLsbD k = true then
        Clocked.lane 8 ports.dataA k
      else Clocked.lane 8 (mem.word state address) k := by
  cases writes : ports.wrenA with
  | false => simp [lawful.word_hold ports state writes]
  | true =>
      rw [lawful.word_write ports state writes]
      by_cases hit : ports.addressA = address
      · subst hit
        simp
      · rw [Function.update_of_ne (Ne.symm hit)]
        simp [hit]

end Onchipmem

end DigitalSystems.Vga
