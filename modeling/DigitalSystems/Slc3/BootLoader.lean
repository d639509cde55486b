import DigitalSystems.Clocked.Latest
import DigitalSystems.Slc3.SramTop
import Mathlib.Data.Nat.Find

/-!
# The boot loader and the processor

After the last cycle of a reset the loader writes for 256 cycles.  Nothing holds
the processor back meanwhile: it leaves `Halted` as soon as `Run` is high, and
`Run` is one of the two reset buttons.
-/

namespace DigitalSystems.Slc3.SramTop

variable {ram : Ram} {inputs : Nat → Input} {start : State ram}

/-- Reset is low in the cycles after `e`, up to but not including `last`. -/
def ReleasedUntil (inputs : Nat → Input) (e last : Nat) : Prop :=
  ∀ t, e < t → t < last → (inputs t).resetAh = false

theorem ReleasedUntil.mono {e first last : Nat} (order : first ≤ last)
    (released : ReleasedUntil inputs e last) : ReleasedUntil inputs e first :=
  fun t after before => released t after (Nat.lt_of_lt_of_le before order)

/-- In the `m`-th cycle after the reset cycle `e` the loader stands at address `m`,
and once past address 255 it no longer writes. -/
theorem loader_after_reset (start : State ram) (e m : Nat)
    (reset : (inputs e).resetAh = true)
    (released : ReleasedUntil inputs e (e + 1 + m)) :
    (m < 256 → (Clocked.run step inputs start (e + 1 + m)).loader =
        { state := .memWrite, address := BitVec.ofNat 16 m }) ∧
      (256 ≤ m → (Clocked.run step inputs start (e + 1 + m)).loader.wren = false) := by
  induction m with
  | zero =>
      refine ⟨fun _ => ?_, fun impossible => by omega⟩
      simp only [Nat.add_zero, Clocked.run_succ, step, Instantiateram.step, reset, if_true]
  | succ m inductionHypothesis =>
      obtain ⟨writing, finished⟩ := inductionHypothesis (released.mono (by omega))
      have low := released (e + 1 + m) (by omega) (by omega)
      have edge : (Clocked.run step inputs start (e + 1 + (m + 1))).loader =
          (Clocked.run step inputs start (e + 1 + m)).loader.step false := by
        rw [← Nat.add_assoc, Clocked.run_succ, ← low]
        rfl
      rw [edge]
      constructor
      · intro bound
        rw [writing (by omega)]
        have more : BitVec.ofNat 16 m ≠ 0xff#16 := by
          intro equal
          have value := congrArg BitVec.toNat equal
          simp only [BitVec.toNat_ofNat] at value
          omega
        simp [Instantiateram.step, Instantiateram.nextState, Instantiateram.accumulate,
          more, BitVec.ofNat_add]
      · intro bound
        by_cases last : m < 256
        · obtain rfl : m = 255 := by omega
          rw [writing (by omega)]
          rfl
        · have quiet := finished (by omega)
          cases phase : (Clocked.run step inputs start (e + 1 + m)).loader.state <;>
            simp_all [Instantiateram.wren, Instantiateram.step, Instantiateram.nextState]

theorem halted_of_reset (start : State ram) (e : Nat)
    (reset : (inputs e).resetAh = true) :
    (Clocked.run step inputs start (e + 1)).cpu.state = .halted := by
  simp [Clocked.run_succ, step, cpuInput, Cpu.step, Isdu.step, reset]

theorem cpu_succ (start : State ram) (t : Nat) (low : (inputs t).resetAh = false) :
    (Clocked.run step inputs start (t + 1)).cpu =
      (Clocked.run step inputs start t).cpu.transfer
        (cpuInput (inputs t) (Clocked.run step inputs start t)) :=
  Cpu.step_eq_transfer _ _ low

theorem state_of_halted (start : State ram) (t : Nat)
    (low : (inputs t).resetAh = false)
    (halted : (Clocked.run step inputs start t).cpu.state = .halted) :
    (Clocked.run step inputs start (t + 1)).cpu.state =
      if (inputs t).runAh then .s18 else .halted := by
  rw [cpu_succ start t low, Cpu.transfer, halted]
  rfl

theorem halted_until_run (start : State ram) (e m : Nat)
    (reset : (inputs e).resetAh = true)
    (released : ReleasedUntil inputs e (e + 1 + m))
    (low : ∀ j, j < m → (inputs (e + 1 + j)).runAh = false) :
    (Clocked.run step inputs start (e + 1 + m)).cpu.state = .halted := by
  induction m with
  | zero => exact halted_of_reset start e reset
  | succ m inductionHypothesis =>
      have halted := inductionHypothesis (released.mono (by omega))
        fun j bound => low j (by omega)
      rw [← Nat.add_assoc, state_of_halted start _ (released _ (by omega) (by omega)) halted,
        low m (Nat.lt_succ_self m)]
      rfl

/-- From cycle `r` on, in every cycle with reset low in which the processor asserts
`OE` or `WE`, the loader is silent and the memory port is the processor's. -/
def Uncontended (inputs : Nat → Input) (start : State ram) (r : Nat) : Prop :=
  ∀ t, r < t → (inputs t).resetAh = false →
    ((Clocked.run step inputs start t).cpu.oe = true ∨
      (Clocked.run step inputs start t).cpu.we = true) →
    weSelect (inputs t) (Clocked.run step inputs start t) = false ∧
      ramPorts (inputs t) (Clocked.run step inputs start t) =
        cpuPorts (Clocked.run step inputs start t)

/-- `Run` is low in each of the first 254 cycles after the reset cycle `e`, unless
the next reset follows within two cycles. -/
def RunHeldOff (inputs : Nat → Input) (e : Nat) : Prop :=
  ∀ j, j < 254 → ReleasedUntil inputs e (e + 4 + j) → (inputs (e + 1 + j)).runAh = false

theorem runHeldOff_of_uncontended {r e : Nat} (order : r ≤ e)
    (reset : (inputs e).resetAh = true) (uncontended : Uncontended inputs start r) :
    RunHeldOff inputs e := by
  intro j bound released
  by_contra pressed
  have some_press : ∃ k, (inputs (e + 1 + k)).runAh = true := ⟨j, by simpa using pressed⟩
  -- the first press decides when the processor leaves `Halted`
  have press := Nat.find_spec some_press
  have first : Nat.find some_press ≤ j :=
    Nat.find_min' some_press (by simpa using pressed)
  have earlier : ∀ k, k < Nat.find some_press → (inputs (e + 1 + k)).runAh = false :=
    fun k before => by simpa using Nat.find_min some_press before
  generalize Nat.find some_press = k at press first earlier
  have halted := halted_until_run start e k reset (released.mono (by omega)) earlier
  have fetch : (Clocked.run step inputs start (e + 1 + k + 1)).cpu.state = .s18 := by
    rw [state_of_halted start _ (released _ (by omega) (by omega)) halted, press]
    rfl
  have access : (Clocked.run step inputs start (e + 1 + k + 2)).cpu.state = .s33_1 := by
    rw [cpu_succ start _ (released _ (by omega) (by omega)), Cpu.transfer, fetch]
  have low := released (e + 1 + k + 2) (by omega) (by omega)
  have reads : (Clocked.run step inputs start (e + 1 + k + 2)).cpu.oe = true := by
    rw [Cpu.oe, Cpu.control, access]
    rfl
  have quiet := (uncontended _ (by omega) low (Or.inl reads)).1
  have writing := (loader_after_reset start e (k + 2) reset (released.mono (by omega))).1
    (by omega)
  rw [weSelect_of_released _ low, show e + 1 + k + 2 = e + 1 + (k + 2) by omega,
    writing] at quiet
  exact absurd quiet nofun

theorem uncontended_of_runHeldOff {r : Nat} (reset : (inputs r).resetAh = true)
    (heldOff : ∀ e, r ≤ e → (inputs e).resetAh = true → RunHeldOff inputs e) :
    Uncontended inputs start r := by
  intro t after low access
  rw [weSelect_of_released _ low]
  obtain ⟨e, order, before, resetAt, quiet⟩ :
      ∃ e, r ≤ e ∧ Clocked.IsLatest (fun t => (inputs t).resetAh = true) t e := by
    rcases Clocked.isLatest_or_quiet (fun t => (inputs t).resetAh = true) r t with
      found | none
    · exact found
    · exact absurd reset (none r le_rfl after)
  obtain ⟨m, rfl⟩ := Nat.exists_eq_add_of_le (show e + 1 ≤ t from before)
  have released : ReleasedUntil inputs e (e + 1 + m) :=
    fun k begun bound => by simpa using quiet k begun bound
  have silent : (Clocked.run step inputs start (e + 1 + m)).loader.wren = false := by
    by_cases finished : 256 ≤ m
    · exact (loader_after_reset start e m resetAt released).2 finished
    · exfalso
      -- `Run` has been low long enough for the processor to be in `Halted` or `S_18`
      have waiting : ∀ j, j + 1 < m → (inputs (e + 1 + j)).runAh = false := by
        intro j bound
        apply heldOff e order resetAt j (by omega)
        intro k begun inside
        rcases Nat.lt_or_ge k (e + 1 + m) with earlier | last
        · exact released k begun earlier
        · obtain rfl : k = e + 1 + m := by omega
          exact low
      have idle : (Clocked.run step inputs start (e + 1 + m)).cpu.state = .halted ∨
          (Clocked.run step inputs start (e + 1 + m)).cpu.state = .s18 := by
        cases m with
        | zero => exact Or.inl (halted_of_reset start e resetAt)
        | succ m =>
            have halted := halted_until_run start e m resetAt (released.mono (by omega))
              fun j bound => waiting j (by omega)
            rw [← Nat.add_assoc,
              state_of_halted start _ (released _ (by omega) (by omega)) halted]
            cases (inputs (e + 1 + m)).runAh
            · exact Or.inl rfl
            · exact Or.inr rfl
      rcases idle with phase | phase <;>
        simp [Cpu.oe, Cpu.we, Cpu.control, phase, Isdu.control] at access
  exact ⟨silent, ramPorts_of_not_weSelect (by rw [weSelect_of_released _ low, silent])⟩

/-- Once reset has been seen, processor and loader never contend if and only if,
after every reset, `Run` stays released while the loader writes. -/
theorem uncontended_iff_runHeldOff (inputs : Nat → Input) (start : State ram) (r : Nat)
    (reset : (inputs r).resetAh = true) :
    Uncontended inputs start r ↔
      ∀ e, r ≤ e → (inputs e).resetAh = true → RunHeldOff inputs e := by
  constructor
  · intro uncontended e order resetAt
    exact runHeldOff_of_uncontended order resetAt uncontended
  · exact uncontended_of_runHeldOff reset

def runReleasedLast (t : Nat) : Input where
  sw := 0#10
  runAh := true
  continueAh := t == 0
  x := 0#16

def emptyStart : State Ram.reference where
  cpu := Cpu.blank .halted
  loader := { state := .idle, address := 0#16 }
  ram := (fun _ => 0#16, 0#16, 0#16)

/-- In cycle 3 the processor reads its first instruction while the loader writes. -/
theorem runReleasedLast_contended :
    (runReleasedLast 0).resetAh = true ∧ ¬ Uncontended runReleasedLast emptyStart 0 := by
  refine ⟨rfl, fun uncontended => ?_⟩
  have quiet := (uncontended 3 (by decide) rfl (Or.inl rfl)).1
  exact absurd quiet nofun

theorem uncontended_iff_runHeldOff_runReleasedLast :
    Uncontended runReleasedLast emptyStart 0 ↔
      ∀ e, 0 ≤ e → (runReleasedLast e).resetAh = true → RunHeldOff runReleasedLast e :=
  uncontended_iff_runHeldOff runReleasedLast emptyStart 0 rfl

end DigitalSystems.Slc3.SramTop
