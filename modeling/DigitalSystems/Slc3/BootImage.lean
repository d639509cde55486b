import DigitalSystems.Slc3.BootLoader

/-!
# The installed image

While the processor stays in `Halted` the loader owns the memory.  The words below
its address are already those of its table, a reset only sends it back to the start,
and the words it never names keep their content.
-/

namespace DigitalSystems.Slc3.SramTop

variable {ram : Ram} {inputs : Nat → Input} {start : State ram}

def word (state : State ram) (i : Nat) : Word := ram.word state.ram (BitVec.ofNat 10 i)

/-- The loader's registers as the circuit sees them in a cycle. -/
def loaderState (input : Input) (state : State ram) : Instantiateram.Phase :=
  (state.loader.present input.resetAh).state

/-- Addresses the loader has passed. -/
def progress (loader : Instantiateram) : Nat :=
  match loader.state with
  | .memWrite => loader.address.toNat
  | .idle | .done => 256

/-- The processor is halted, and the table is installed up to the loader's address. -/
structure Installing (initial : Nat → Word) (state : State ram) : Prop where
  halted : state.cpu.state = .halted
  inside : state.loader.state = .memWrite → state.loader.address.toNat < 256
  table : ∀ i, i < 256 → i < progress state.loader →
    word state i = Instantiateram.data (BitVec.ofNat 16 i)
  above : ∀ i, 256 ≤ i → i < 1024 → word state i = initial i

section Step

variable {input : Input} {state : State ram}

theorem step_cpu_halted (halted : state.cpu.state = .halted)
    (held : input.runAh = true → input.resetAh = true) :
    (step input state).cpu.state = .halted := by
  cases reset : input.resetAh with
  | true => simp [step, cpuInput, Cpu.step, Isdu.step, reset]
  | false =>
      have released : input.runAh = false := by
        rw [← Bool.not_eq_true]
        exact fun pressed => Bool.false_ne_true (reset.symm.trans (held pressed))
      simp [step, cpuInput, Cpu.step, Isdu.step, reset, halted, Isdu.nextState, released]

theorem step_loader : (step input state).loader = state.loader.step input.resetAh := rfl

/-- A writing loader stores the word of its table at its address. -/
theorem word_step_of_writing (lawful : ram.Lawful) (writing : weSelect input state = true)
    {a : Nat} (address : (state.loader.present input.resetAh).address = BitVec.ofNat 16 a)
    (inside : a < 256) {i : Nat} (bound : i < 1024) :
    word (step input state) i =
      if i = a then Instantiateram.data (BitVec.ofNat 16 a) else word state i := by
  have port : (ramPorts input state).address = BitVec.ofNat 10 a := by
    simp only [ramPorts, writing, if_true, address]
    apply BitVec.eq_of_toNat_eq
    simp only [BitVec.extractLsb'_toNat, BitVec.toNat_ofNat, Nat.shiftRight_zero]
    omega
  have value : (ramPorts input state).data = Instantiateram.data (BitVec.ofNat 16 a) := by
    simp only [ramPorts, writing, if_true, address]
  have writes : (ramPorts input state).wren = true := by
    simp only [ramPorts, writing, if_true]
  rw [word, word, step, lawful.word_write _ _ writes, port, value]
  by_cases hit : i = a
  · subst hit
    rw [if_pos rfl, Function.update_self]
  · have other : BitVec.ofNat 10 i ≠ BitVec.ofNat 10 a := by
      intro equal
      have values := congrArg BitVec.toNat equal
      simp only [BitVec.toNat_ofNat] at values
      omega
    rw [if_neg hit, Function.update_of_ne other]

theorem word_step_of_silent (lawful : ram.Lawful) (silent : weSelect input state = false)
    (halted : state.cpu.state = .halted) (i : Nat) :
    word (step input state) i = word state i := by
  have reads : (ramPorts input state).wren = false := by
    simp [ramPorts, silent, Cpu.we, Cpu.control, halted, Isdu.control]
  rw [word, word, step, lawful.word_hold _ _ reads]

theorem installing_of_reset (lawful : ram.Lawful) {initial : Nat → Word}
    (reset : input.resetAh = true)
    (above : ∀ i, 256 ≤ i → i < 1024 → word state i = initial i) :
    Installing initial (step input state) := by
  have loader : (step input state).loader = { state := .memWrite, address := 0#16 } := by
    simp [step_loader, Instantiateram.step, reset]
  refine ⟨?_, ?_, ?_, ?_⟩
  · simp [step, cpuInput, Cpu.step, Isdu.step, reset]
  · rw [loader]
    exact fun _ => by decide
  · intro i _ passed
    rw [loader] at passed
    exact absurd passed (Nat.not_lt_zero i)
  · intro i outside bound
    have writing : weSelect input state = true := by
      simp [weSelect, Instantiateram.present, reset, Instantiateram.wren]
    have address : (state.loader.present input.resetAh).address = BitVec.ofNat 16 0 := by
      simp [Instantiateram.present, reset]
    rw [word_step_of_writing lawful writing address (by decide) bound, if_neg (by omega)]
    exact above i outside bound

theorem installing_of_silent (lawful : ram.Lawful) {initial : Nat → Word}
    (installing : Installing initial state)
    (held : input.runAh = true → input.resetAh = true) (released : input.resetAh = false)
    (finished : state.loader.state ≠ .memWrite) : Installing initial (step input state) := by
  have silent : weSelect input state = false ∧ progress state.loader = 256 ∧
      (step input state).loader.state = .idle := by
    rw [weSelect_of_released state released, step_loader, Instantiateram.wren, progress]
    cases phase : state.loader.state with
    | memWrite => exact absurd phase finished
    | idle => simp [Instantiateram.step, released, Instantiateram.nextState, phase]
    | done => simp [Instantiateram.step, released, Instantiateram.nextState, phase]
  refine ⟨step_cpu_halted installing.halted held, by simp [silent.2.2], ?_, ?_⟩
  · intro i bound _
    rw [word_step_of_silent lawful silent.1 installing.halted]
    exact installing.table i bound (by rw [silent.2.1]; exact bound)
  · intro i outside bound
    rw [word_step_of_silent lawful silent.1 installing.halted]
    exact installing.above i outside bound

theorem progress_step_of_writing (released : input.resetAh = false)
    (writing : state.loader.state = .memWrite) (inside : state.loader.address.toNat < 256) :
    progress (step input state).loader = state.loader.address.toNat + 1 ∧
      ((step input state).loader.state = .memWrite →
        (step input state).loader.address.toNat < 256) := by
  have next : (state.loader.address + 1#16).toNat = state.loader.address.toNat + 1 := by
    simp only [BitVec.toNat_add, BitVec.toNat_ofNat]
    omega
  by_cases last : state.loader.address = 0xff#16
  · simp [step_loader, Instantiateram.step, released, Instantiateram.nextState, writing, last,
      progress]
  · have before : state.loader.address.toNat ≠ 255 :=
      fun equal => last (BitVec.eq_of_toNat_eq equal)
    have walks : (step input state).loader =
        { state := .memWrite, address := state.loader.address + 1#16 } := by
      simp [step_loader, Instantiateram.step, released, Instantiateram.nextState, writing,
        last, Instantiateram.accumulate]
    rw [walks]
    refine ⟨next, fun _ => ?_⟩
    dsimp only
    omega

theorem installing_of_writing (lawful : ram.Lawful) {initial : Nat → Word}
    (installing : Installing initial state)
    (held : input.runAh = true → input.resetAh = true) (released : input.resetAh = false)
    (writing : state.loader.state = .memWrite) : Installing initial (step input state) := by
  have inside := installing.inside writing
  have next := progress_step_of_writing released writing inside
  have selects : weSelect input state = true := by
    rw [weSelect_of_released state released, Instantiateram.wren, writing]
  have address : (state.loader.present input.resetAh).address =
      BitVec.ofNat 16 state.loader.address.toNat := by
    simp [Instantiateram.present, released]
  refine ⟨step_cpu_halted installing.halted held, next.2, ?_, ?_⟩
  · intro i bound passed
    rw [word_step_of_writing lawful selects address inside (by omega)]
    rw [next.1] at passed
    split
    case isTrue here => rw [here]
    case isFalse other =>
      exact installing.table i bound (by rw [progress, writing]; dsimp only; omega)
  · intro i outside bound
    rw [word_step_of_writing lawful selects address inside bound, if_neg (by omega)]
    exact installing.above i outside bound

theorem installing_step (lawful : ram.Lawful) {initial : Nat → Word}
    (installing : Installing initial state)
    (held : input.runAh = true → input.resetAh = true) :
    Installing initial (step input state) := by
  cases reset : input.resetAh with
  | true => exact installing_of_reset lawful reset installing.above
  | false =>
      by_cases writing : state.loader.state = .memWrite
      · exact installing_of_writing lawful installing held reset writing
      · exact installing_of_silent lawful installing held reset writing

end Step

theorem installing_run (lawful : ram.Lawful) {r : Nat} (reset : (inputs r).resetAh = true)
    (held : ∀ t, r ≤ t → (inputs t).runAh = true → (inputs t).resetAh = true) {t : Nat}
    (after : r < t) :
    Installing (word (Clocked.run step inputs start r)) (Clocked.run step inputs start t) := by
  induction t, after using Nat.le_induction with
  | base => exact installing_of_reset lawful reset fun _ _ _ => rfl
  | succ t after inductionHypothesis =>
      exact installing_step lawful inductionHypothesis (held t (by omega))

/-- A loader that has finished stays silent as long as reset is low. -/
theorem silent_run {t m : Nat} (low : ∀ u, t ≤ u → u ≤ t + m → (inputs u).resetAh = false)
    (finished : (Clocked.run step inputs start t).loader.state ≠ .memWrite) :
    (Clocked.run step inputs start (t + m)).loader.state ≠ .memWrite := by
  induction m with
  | zero => exact finished
  | succ m inductionHypothesis =>
      have before := inductionHypothesis fun u begun bound => low u begun (by omega)
      rw [← Nat.add_assoc, Clocked.run_succ, step_loader, low (t + m) (by omega) (by omega)]
      generalize (Clocked.run step inputs start (t + m)).loader = loader at before
      cases phase : loader.state with
      | memWrite => exact absurd phase before
      | idle => simp [Instantiateram.step, Instantiateram.nextState, phase]
      | done => simp [Instantiateram.step, Instantiateram.nextState, phase]

theorem weSelect_iff (input : Input) (state : State ram) :
    weSelect input state = true ↔ loaderState input state = .memWrite := by
  rw [weSelect, Instantiateram.wren, loaderState]
  cases (state.loader.present input.resetAh).state <;> simp

/-- After a reset in cycle `r`, with `Run` only pressed as part of a reset: whenever the
loader stands in `done` or `idle` its table is installed, nothing above it has changed,
and it stays silent up to the next reset; and after each reset it writes in exactly the
next 256 cycles. -/
theorem loader_installs_image (lawful : ram.Lawful) (inputs : Nat → Input)
    (start : State ram) (r : Nat) (reset : (inputs r).resetAh = true)
    (held : ∀ t, r ≤ t → (inputs t).runAh = true → (inputs t).resetAh = true) :
    (∀ t, r < t →
        loaderState (inputs t) (Clocked.run step inputs start t) ≠ .memWrite →
        (∀ i, i < 256 →
            word (Clocked.run step inputs start t) i =
              Instantiateram.data (BitVec.ofNat 16 i)) ∧
          (∀ i, 256 ≤ i → i < 1024 →
            word (Clocked.run step inputs start t) i =
              word (Clocked.run step inputs start r) i) ∧
          ∀ m, (∀ u, t ≤ u → u ≤ t + m → (inputs u).resetAh = false) →
            weSelect (inputs (t + m)) (Clocked.run step inputs start (t + m)) = false) ∧
      ∀ e m, r ≤ e → (inputs e).resetAh = true → ReleasedUntil inputs e (e + 1 + m + 1) →
        (weSelect (inputs (e + 1 + m)) (Clocked.run step inputs start (e + 1 + m)) = true ↔
          m < 256) := by
  constructor
  · intro t after finished
    have low : (inputs t).resetAh = false := by
      rw [← Bool.not_eq_true]
      intro pressed
      exact finished (by simp [loaderState, Instantiateram.present, pressed])
    have phase : (Clocked.run step inputs start t).loader.state ≠ .memWrite := by
      simpa [loaderState, Instantiateram.present, low] using finished
    have passed : progress (Clocked.run step inputs start t).loader = 256 := by
      rw [progress]
      cases loader : (Clocked.run step inputs start t).loader.state with
      | memWrite => exact absurd loader phase
      | idle => rfl
      | done => rfl
    have installing : Installing (word (Clocked.run step inputs start r))
        (Clocked.run step inputs start t) := installing_run lawful reset held after
    refine ⟨?_, installing.above, ?_⟩
    · intro i bound
      exact installing.table i bound (by rw [passed]; exact bound)
    · intro m released
      rw [← Bool.not_eq_true, weSelect_iff, loaderState, Instantiateram.present,
        released (t + m) (by omega) le_rfl]
      exact silent_run released phase
  · intro e m order pressed released
    have walked := loader_after_reset start e m pressed (released.mono (by omega))
    rw [weSelect_of_released _ (released (e + 1 + m) (by omega) (by omega))]
    constructor
    · intro writing
      by_contra past
      rw [walked.2 (by omega)] at writing
      exact Bool.false_ne_true writing
    · intro bound
      rw [walked.1 bound]
      rfl

def resetFirst (t : Nat) : Input where
  sw := 0#10
  runAh := t == 0
  continueAh := t == 0
  x := 0#16

theorem loader_installs_image_resetFirst :
    (∀ t, 0 < t →
        loaderState (resetFirst t) (Clocked.run step resetFirst emptyStart t) ≠ .memWrite →
        (∀ i, i < 256 →
            word (Clocked.run step resetFirst emptyStart t) i =
              Instantiateram.data (BitVec.ofNat 16 i)) ∧
          (∀ i, 256 ≤ i → i < 1024 →
            word (Clocked.run step resetFirst emptyStart t) i =
              word (Clocked.run step resetFirst emptyStart 0) i) ∧
          ∀ m, (∀ u, t ≤ u → u ≤ t + m → (resetFirst u).resetAh = false) →
            weSelect (resetFirst (t + m)) (Clocked.run step resetFirst emptyStart (t + m)) =
              false) ∧
      ∀ e m, 0 ≤ e → (resetFirst e).resetAh = true →
        ReleasedUntil resetFirst e (e + 1 + m + 1) →
        (weSelect (resetFirst (e + 1 + m))
            (Clocked.run step resetFirst emptyStart (e + 1 + m)) = true ↔ m < 256) :=
  loader_installs_image Ram.reference_lawful resetFirst emptyStart 0 rfl fun t _ pressed => by
    simpa [resetFirst, Input.resetAh] using pressed

end DigitalSystems.Slc3.SramTop
