import DigitalSystems.Vga.ReadPort
import Mathlib.Algebra.Group.Nat.Defs

/-!
# The slave translator

`altera_merlin_slave_translator` for slaves without a wait request of their own and without
read latency: it counts out the wait cycles of a transfer and stalls the universal side
until they are over.
-/

namespace DigitalSystems.Soc

/-- The universal side of the translator, and the read data of the slave. -/
structure UavInput where
  reset : Bool
  uavAddress : BitVec 28
  uavWritedata : BitVec 32
  uavWrite : Bool
  uavRead : Bool
  uavByteenable : BitVec 4
  deriving DecidableEq

def UavInput.requests (uav : UavInput) : Bool := uav.uavRead || uav.uavWrite

/-- The parameters of the timing. -/
structure WaitCycles where
  avReadWaitCycles : Nat
  avWriteWaitCycles : Nat
  avSetupWaitCycles : Nat
  avDataHoldCycles : Nat

namespace WaitCycles

variable (cycles : WaitCycles)

/-- The shifts until nothing of `depth` is left. -/
def clog2PlusOne (depth : Nat) : Nat := if depth = 0 then 0 else depth.log2 + 1

def avReadWaitIndexed : Nat := cycles.avSetupWaitCycles + cycles.avReadWaitCycles

def avWriteWaitIndexed : Nat := cycles.avSetupWaitCycles + cycles.avWriteWaitCycles

def avDataHoldIndexed : Nat := cycles.avWriteWaitIndexed + cycles.avDataHoldCycles

def log2OfLatencySum : Nat :=
  max (clog2PlusOne (cycles.avReadWaitIndexed + 1)) (clog2PlusOne (cycles.avDataHoldIndexed + 1))

/-- The wait cycles of a transfer. -/
def waits (uav : UavInput) : Nat :=
  if uav.uavWrite then cycles.avDataHoldIndexed else cycles.avReadWaitIndexed

theorem indexed_lt :
    cycles.avReadWaitIndexed + 1 < 2 ^ cycles.log2OfLatencySum ∧
      cycles.avDataHoldIndexed + 1 < 2 ^ cycles.log2OfLatencySum := by
  have fits : ∀ index, index + 1 < 2 ^ clog2PlusOne (index + 1) := by
    intro index
    rw [clog2PlusOne, if_neg (Nat.succ_ne_zero index)]
    exact Nat.lt_log2_self
  unfold log2OfLatencySum
  constructor
  · exact Nat.lt_of_lt_of_le (fits _) (Nat.pow_le_pow_right (by decide) (Nat.le_max_left _ _))
  · exact Nat.lt_of_lt_of_le (fits _) (Nat.pow_le_pow_right (by decide) (Nat.le_max_right _ _))

theorem waits_lt (uav : UavInput) : cycles.waits uav + 1 < 2 ^ cycles.log2OfLatencySum := by
  unfold waits
  split
  · exact cycles.indexed_lt.2
  · exact cycles.indexed_lt.1

/-- One bit for the counter is only enough when nothing ever waits. -/
theorem none_of_single (single : cycles.log2OfLatencySum = 1) :
    cycles.avReadWaitIndexed = 0 ∧ cycles.avDataHoldIndexed = 0 := by
  have fits := cycles.indexed_lt
  rw [single] at fits
  omega

end WaitCycles

structure SlaveTranslator (cycles : WaitCycles) where
  waitLatencyCounter : BitVec cycles.log2OfLatencySum
  waitrequestResetOverride : Bool
  avReaddataPre : BitVec 32
  readLatencyShiftReg : Bool

namespace SlaveTranslator

variable {cycles : WaitCycles}

/-- What an active reset holds the registers at. -/
def zero : SlaveTranslator cycles where
  waitLatencyCounter := 0
  waitrequestResetOverride := true
  avReaddataPre := 0
  readLatencyShiftReg := false

section Outputs

variable (uav : UavInput) (s : SlaveTranslator cycles)

def avWaitrequestGenerated : Bool :=
  if cycles.log2OfLatencySum = 1 then false
  else if uav.uavWrite then s.waitLatencyCounter.toNat != cycles.avDataHoldIndexed
  else s.waitLatencyCounter.toNat != cycles.avReadWaitIndexed

def uavWaitrequest : Bool := s.avWaitrequestGenerated uav || s.waitrequestResetOverride

def avRead : Bool :=
  if cycles.log2OfLatencySum = 1 then uav.uavRead
  else decide (s.waitLatencyCounter.toNat ≥ cycles.avSetupWaitCycles) && uav.uavRead

def avWrite : Bool :=
  if cycles.log2OfLatencySum = 1 then uav.uavWrite
  else decide (s.waitLatencyCounter.toNat ≥ cycles.avSetupWaitCycles) && uav.uavWrite &&
    decide (s.waitLatencyCounter.toNat ≤ cycles.avWriteWaitIndexed)

/-- `av_chipselect_pre` stays low without read latency. -/
def avChipselect : Bool := uav.requests

def uavReaddata : BitVec 32 := s.avReaddataPre

def uavReaddatavalid : Bool := s.readLatencyShiftReg

/-- The transfer ends in this cycle. -/
def completes : Bool := uav.requests && !s.uavWaitrequest uav

def step (avReaddata : BitVec 32) : SlaveTranslator cycles :=
  if uav.reset then zero
  else
    { waitLatencyCounter :=
        if !s.uavWaitrequest uav || s.waitrequestResetOverride then 0
        else if uav.requests then s.waitLatencyCounter + 1
        else 0
      waitrequestResetOverride := false
      avReaddataPre := avReaddata
      readLatencyShiftReg :=
        uav.uavRead && !s.uavWaitrequest uav && !s.waitrequestResetOverride }

end Outputs

/-- The transfer under way has waited for `j` cycles. -/
structure Waited (s : SlaveTranslator cycles) (j : Nat) : Prop where
  waitLatencyCounter : s.waitLatencyCounter.toNat = j
  released : s.waitrequestResetOverride = false

section Step

variable {uav : UavInput} {s : SlaveTranslator cycles} {j : Nat} (avReaddata : BitVec 32)

theorem avWaitrequestGenerated_eq (waited : s.Waited j) (bound : j ≤ cycles.waits uav) :
    s.avWaitrequestGenerated uav = decide (j < cycles.waits uav) := by
  have compared : decide (j < cycles.waits uav) =
      (s.waitLatencyCounter.toNat != cycles.waits uav) := by
    rw [waited.waitLatencyCounter, Bool.eq_iff_iff, decide_eq_true_iff, bne_iff_ne]
    omega
  rw [avWaitrequestGenerated, compared]
  by_cases single : cycles.log2OfLatencySum = 1
  · have fits := cycles.waits_lt uav
    rw [single] at fits
    rw [if_pos single, ← compared, decide_eq_false (by omega)]
  · rw [if_neg single, WaitCycles.waits]
    split <;> rfl

theorem uavWaitrequest_eq (waited : s.Waited j) (bound : j ≤ cycles.waits uav) :
    s.uavWaitrequest uav = decide (j < cycles.waits uav) := by
  rw [uavWaitrequest, avWaitrequestGenerated_eq waited bound, waited.released, Bool.or_false]

theorem avRead_eq (waited : s.Waited j) :
    s.avRead uav = (decide (cycles.avSetupWaitCycles ≤ j) && uav.uavRead) := by
  rw [avRead, waited.waitLatencyCounter]
  split
  · rename_i single
    have none := (cycles.none_of_single single).1
    unfold WaitCycles.avReadWaitIndexed at none
    rw [decide_eq_true (by omega), Bool.true_and]
  · rfl

theorem avWrite_eq (waited : s.Waited j) (bound : j ≤ cycles.waits uav) :
    s.avWrite uav =
      (decide (cycles.avSetupWaitCycles ≤ j ∧ j ≤ cycles.avWriteWaitIndexed) &&
        uav.uavWrite) := by
  rw [avWrite, waited.waitLatencyCounter]
  split
  · rename_i single
    have none := cycles.none_of_single single
    have fits := cycles.waits_lt uav
    rw [single] at fits
    unfold WaitCycles.avReadWaitIndexed at none
    rw [decide_eq_true (by omega), Bool.true_and]
  · rw [Bool.decide_and, Bool.and_assoc, Bool.and_assoc, Bool.and_comm uav.uavWrite]

theorem Waited.step_of_waiting (waited : s.Waited j) (bound : j < cycles.waits uav)
    (reset : uav.reset = false) (requests : uav.requests = true) :
    (s.step uav avReaddata).Waited (j + 1) := by
  have fits := cycles.waits_lt uav
  have stalls := uavWaitrequest_eq waited (Nat.le_of_lt bound)
  rw [decide_eq_true bound] at stalls
  have counter := waited.waitLatencyCounter
  constructor
  · simp only [step, reset, stalls, waited.released, requests, Bool.not_true, Bool.or_self,
      Bool.false_eq_true, if_false, if_true]
    have one : (1 : BitVec cycles.log2OfLatencySum).toNat = 1 := by
      change 1 % 2 ^ cycles.log2OfLatencySum = 1
      exact Nat.mod_eq_of_lt (by omega)
    rw [BitVec.toNat_add, counter, one, Nat.mod_eq_of_lt (by omega)]
  · simp [step, reset]

theorem Waited.step_of_last (waited : s.Waited (cycles.waits uav)) (reset : uav.reset = false) :
    (s.step uav avReaddata).Waited 0 ∧
      (s.step uav avReaddata).uavReaddatavalid = uav.uavRead ∧
      (s.step uav avReaddata).uavReaddata = avReaddata := by
  have ready := uavWaitrequest_eq waited (Nat.le_refl _)
  rw [decide_eq_false (Nat.lt_irrefl _)] at ready
  refine ⟨⟨?_, ?_⟩, ?_, ?_⟩ <;>
    simp [step, reset, ready, waited.released, uavReaddatavalid, uavReaddata]

theorem step_of_idle (reset : uav.reset = false) (idle : uav.requests = false) :
    (s.step uav avReaddata).Waited 0 ∧
      (s.step uav avReaddata).uavReaddatavalid = false := by
  have silent : uav.uavRead = false := (Bool.or_eq_false_iff.mp idle).1
  refine ⟨⟨?_, ?_⟩, ?_⟩ <;> simp [step, reset, idle, silent, uavReaddatavalid]

theorem uavReaddatavalid_step (reset : uav.reset = false)
    (released : s.waitrequestResetOverride = false) :
    (s.step uav avReaddata).uavReaddatavalid = (uav.uavRead && !s.uavWaitrequest uav) := by
  simp [step, reset, released, uavReaddatavalid]

/-- The first cycle after the reset counts for nothing. -/
theorem waited_zero (reset : uav.reset = false) :
    ((zero : SlaveTranslator cycles).step uav avReaddata).Waited 0 := by
  constructor <;> simp [step, zero, reset]

end Step

section Run

/-- The registers after `n` edges from the reset on. -/
def states (cycles : WaitCycles) (uav : Nat → UavInput) (avReaddata : Nat → BitVec 32) :
    Nat → SlaveTranslator cycles :=
  Clocked.run (fun (input : UavInput × BitVec 32) s => s.step input.1 input.2)
    (fun t => (uav t, avReaddata t)) zero

variable {uav : Nat → UavInput} {avReaddata : Nat → BitVec 32}

/-- The reset is over, and a request stays while it has to wait. -/
structure Master (cycles : WaitCycles) (uav : Nat → UavInput) (avReaddata : Nat → BitVec 32) :
    Prop where
  released : ∀ t, (uav t).reset = false
  held : ∀ t, (uav t).requests = true →
    (states cycles uav avReaddata t).uavWaitrequest (uav t) = true → uav (t + 1) = uav t

/-- A transfer that begins in cycle `first`: it is held until its waits are over, the strobes
come after the setup, the write strobe goes before the hold, and a read is answered once, in
the cycle after the last with the data of the last. -/
structure Timed (cycles : WaitCycles) (uav : Nat → UavInput) (avReaddata : Nat → BitVec 32)
    (first : Nat) : Prop where
  requests : (uav first).requests = true
  held : ∀ j, j ≤ cycles.waits (uav first) → uav (first + j) = uav first
  stalls : ∀ j, j ≤ cycles.waits (uav first) →
    (states cycles uav avReaddata (first + j)).uavWaitrequest (uav first) =
      decide (j < cycles.waits (uav first))
  reads : ∀ j, j ≤ cycles.waits (uav first) →
    (states cycles uav avReaddata (first + j)).avRead (uav first) =
      (decide (cycles.avSetupWaitCycles ≤ j) && (uav first).uavRead)
  writes : ∀ j, j ≤ cycles.waits (uav first) →
    (states cycles uav avReaddata (first + j)).avWrite (uav first) =
      (decide (cycles.avSetupWaitCycles ≤ j ∧ j ≤ cycles.avWriteWaitIndexed) &&
        (uav first).uavWrite)
  answered : ∀ j, j ≤ cycles.waits (uav first) →
    (states cycles uav avReaddata (first + j + 1)).uavReaddatavalid =
      (decide (j = cycles.waits (uav first)) && (uav first).uavRead)
  data :
    (states cycles uav avReaddata (first + cycles.waits (uav first) + 1)).uavReaddata =
      avReaddata (first + cycles.waits (uav first))

theorem states_succ (t : Nat) :
    states cycles uav avReaddata (t + 1) =
      (states cycles uav avReaddata t).step (uav t) (avReaddata t) := rfl

theorem waited_of_rest (master : Master cycles uav avReaddata) {first : Nat}
    (rest : (states cycles uav avReaddata first).Waited 0)
    (requests : (uav first).requests = true) (j : Nat) (bound : j ≤ cycles.waits (uav first)) :
    uav (first + j) = uav first ∧ (states cycles uav avReaddata (first + j)).Waited j := by
  induction j with
  | zero => exact ⟨rfl, rest⟩
  | succ j inductionHypothesis =>
      obtain ⟨same, waited⟩ := inductionHypothesis (Nat.le_of_lt bound)
      rw [← same] at requests bound
      have stalls := uavWaitrequest_eq waited (Nat.le_of_lt bound)
      rw [decide_eq_true (Nat.lt_of_succ_le bound)] at stalls
      refine ⟨(master.held _ requests stalls).trans same, ?_⟩
      exact waited.step_of_waiting _ bound (master.released _) requests

theorem timed_of_rest (master : Master cycles uav avReaddata) {first : Nat}
    (rest : (states cycles uav avReaddata first).Waited 0)
    (requests : (uav first).requests = true) :
    Timed cycles uav avReaddata first ∧
      (states cycles uav avReaddata (first + cycles.waits (uav first) + 1)).Waited 0 := by
  have during := waited_of_rest master rest requests
  obtain ⟨same, last⟩ := during _ (Nat.le_refl _)
  have ends := Waited.step_of_last (avReaddata (first + cycles.waits (uav first)))
    last (master.released first)
  have next : states cycles uav avReaddata (first + cycles.waits (uav first) + 1) =
      (states cycles uav avReaddata (first + cycles.waits (uav first))).step (uav first)
        (avReaddata (first + cycles.waits (uav first))) := by
    rw [states_succ, same]
  rw [← next] at ends
  refine ⟨?_, ends.1⟩
  constructor
  case requests => exact requests
  case held => exact fun j bound => (during j bound).1
  case stalls => exact fun j bound => uavWaitrequest_eq (during j bound).2 bound
  case reads => exact fun j bound => avRead_eq (during j bound).2
  case writes => exact fun j bound => avWrite_eq (during j bound).2 bound
  case answered =>
    intro j bound
    obtain ⟨same', waited⟩ := during j bound
    rw [states_succ, same', uavReaddatavalid_step _ (master.released first) waited.released,
      uavWaitrequest_eq waited bound, Bool.and_comm, ← decide_not]
    have last : (¬ j < cycles.waits (uav first)) ↔ j = cycles.waits (uav first) := by omega
    simp only [last]
  case data => exact ends.2.2

/-- Every cycle after the first is in a transfer or begins at rest. -/
theorem exists_first (master : Master cycles uav avReaddata) (t : Nat) :
    ∃ first, 0 < first ∧ first ≤ t + 1 ∧
      (states cycles uav avReaddata first).Waited 0 ∧
      (first = t + 1 ∨
        (uav first).requests = true ∧ t + 1 ≤ first + cycles.waits (uav first)) := by
  induction t with
  | zero =>
      refine ⟨1, Nat.one_pos, Nat.le_refl 1, ?_, Or.inl rfl⟩
      exact waited_zero _ (master.released 0)
  | succ t inductionHypothesis =>
      obtain ⟨first, positive, begun, rest, place⟩ := inductionHypothesis
      by_cases requests : (uav first).requests = true
      · -- The transfer goes on, or its last cycle was this one.
        rcases Nat.lt_or_ge (first + cycles.waits (uav first)) (t + 2) with past | within
        · have last : first + cycles.waits (uav first) = t + 1 := by omega
          have next := (timed_of_rest master rest requests).2
          rw [last] at next
          exact ⟨t + 2, by omega, Nat.le_refl _, next, Or.inl rfl⟩
        · exact ⟨first, positive, by omega, rest, Or.inr ⟨requests, within⟩⟩
      · obtain rfl : first = t + 1 := by
          rcases place with here | ⟨requesting, -⟩
          · exact here
          · exact absurd requesting requests
        have idle := Bool.eq_false_iff.mpr requests
        exact ⟨t + 2, by omega, Nat.le_refl _,
          (step_of_idle _ (master.released (t + 1)) idle).1, Or.inl rfl⟩

/-- In every run of a legal master every cycle after the first is idle, without strobe and
without answer, or lies in a transfer that is timed as the parameters say. -/
theorem transfers_timed (master : Master cycles uav avReaddata) {t : Nat} (begun : 0 < t) :
    ((uav t).requests = false ∧
        (states cycles uav avReaddata t).avRead (uav t) = false ∧
        (states cycles uav avReaddata t).avWrite (uav t) = false ∧
        (states cycles uav avReaddata (t + 1)).uavReaddatavalid = false) ∨
      ∃ first, first ≤ t ∧ t ≤ first + cycles.waits (uav first) ∧
        Timed cycles uav avReaddata first := by
  obtain ⟨t, rfl⟩ := Nat.exists_eq_succ_of_ne_zero (Nat.ne_of_gt begun)
  obtain ⟨first, -, before, rest, place⟩ := exists_first master t
  by_cases requests : (uav first).requests = true
  · refine Or.inr ⟨first, before, ?_, (timed_of_rest master rest requests).1⟩
    rcases place with rfl | ⟨-, bound⟩
    · exact Nat.le_add_right _ _
    · exact bound
  · obtain rfl : first = t + 1 := by
      rcases place with here | ⟨requesting, -⟩
      · exact here
      · exact absurd requesting requests
    have idle := Bool.eq_false_iff.mpr requests
    have silent := Bool.or_eq_false_iff.mp idle
    refine Or.inl ⟨idle, ?_, ?_, (step_of_idle _ (master.released (t + 1)) idle).2⟩
    · rw [avRead_eq rest, silent.1, Bool.and_false]
    · rw [avWrite_eq rest (Nat.zero_le _), silent.2, Bool.and_false]

def slowRead : UavInput where
  reset := false
  uavAddress := 0#28
  uavWritedata := 0#32
  uavWrite := false
  uavRead := true
  uavByteenable := 0b1111#4

def slowCycles : WaitCycles where
  avReadWaitCycles := 2
  avWriteWaitCycles := 2
  avSetupWaitCycles := 1
  avDataHoldCycles := 1

theorem transfers_timed_slowRead :
    (slowRead.requests = false ∧
        (states slowCycles (fun _ => slowRead) (BitVec.ofNat 32) 3).avRead slowRead = false ∧
        (states slowCycles (fun _ => slowRead) (BitVec.ofNat 32) 3).avWrite slowRead = false ∧
        (states slowCycles (fun _ => slowRead) (BitVec.ofNat 32) 4).uavReaddatavalid = false) ∨
      ∃ first, first ≤ 3 ∧ 3 ≤ first + slowCycles.waits slowRead ∧
        Timed slowCycles (fun _ => slowRead) (BitVec.ofNat 32) first :=
  have master : Master slowCycles (fun _ => slowRead) (BitVec.ofNat 32) :=
    ⟨fun _ => rfl, fun _ _ _ => rfl⟩
  transfers_timed master (by decide)

end Run

end SlaveTranslator

end DigitalSystems.Soc
