import DigitalSystems.Vga.Screen

/-!
# Accesses over the bus

What the processor does at `vga_ctrl` reaches the interface as bus cycles, with other
cycles in between.  The registers then hold what the accesses have stored.
-/

namespace DigitalSystems.Vga

namespace Driver

open Interface

variable {mem : Onchipmem} (font : FontRom)

/-- A cycle in which the bus reads a palette register. -/
structure Fetches (input : AvalonInput) (assignment : Assignment) : Prop where
  avlCs : input.avlCs = true
  avlRead : input.avlRead = true
  avlWrite : input.avlWrite = false
  avlAddr : input.avlAddr = paletteAddress assignment.index

/-- A cycle in which the bus writes `word` to a palette register. -/
structure Replaces (input : AvalonInput) (assignment : Assignment) (word : VramWord) :
    Prop where
  avlCs : input.avlCs = true
  avlWrite : input.avlWrite = true
  avlAddr : input.avlAddr = paletteAddress assignment.index
  avlWritedata : input.avlWritedata = word

/-- By cycle `n` the processor has carried out these accesses, in this order, and has
written nothing else.  The word of a compound assignment is read over the bus in two
cycles and taken in the second; the write may follow at any time. -/
inductive Performed (inputs : Nat → AvalonInput) (start : Interface mem) :
    List Access → Nat → Prop where
  | nothing : Performed inputs start [] 0
  | other {accesses n} : Performed inputs start accesses n →
      (inputs n).avlWrite = false → Performed inputs start accesses (n + 1)
  | store {accesses n store} : Performed inputs start accesses n →
      Carries (inputs n) store →
      Performed inputs start (accesses ++ [.store store]) (n + 1)
  | assign {accesses first n assignment} : Performed inputs start accesses first →
      first + 1 < n → Fetches (inputs first) assignment →
      Fetches (inputs (first + 1)) assignment →
      (∀ t, first ≤ t → t < n → (inputs t).avlWrite = false) →
      Replaces (inputs n) assignment (assignment.operation
        (Clocked.run (step font) inputs start (first + 1)).avlReaddata) →
      Performed inputs start (accesses ++ [.assign assignment]) (n + 1)

/-- The registers hold the contents, cells and palette. -/
structure Stores (s : Interface mem) (contents : Contents) : Prop where
  byte : ∀ offset, offset < 8192 → byteAt s offset = contents.byte offset
  palette : s.colorRegisters = contents.palette

def contents (s : Interface mem) : Contents where
  byte := byteAt s
  palette := s.colorRegisters

theorem offset_accesses {call : Call} (valid : call.Valid) {store : Store}
    (stored : Access.store store ∈ call.accesses) : store.offset < rows * columns * 2 := by
  cases call with
  | clear =>
      obtain ⟨other, membership, equal⟩ := List.mem_map.mp stored
      cases equal
      have none : ∀ call ∈ ([] : List TextCall), call.Valid := nofun
      exact offset_program none store (List.mem_append_left _ membership)
  | text call =>
      obtain ⟨other, membership, equal⟩ := List.mem_map.mp stored
      cases equal
      have single : ∀ other ∈ [call], other.Valid := List.forall_mem_singleton.mpr valid
      apply offset_program single
      apply List.mem_append_right
      rw [List.flatMap_singleton]
      exact membership
  | palette call =>
      obtain ⟨other, _, equal⟩ := List.mem_map.mp stored
      cases equal

theorem offset_program_accesses {screen : Screen} {x : Fin 640} {y : Fin 480}
    {calls : List Call} (valid : ∀ call ∈ calls, call.Valid) {more : List Access}
    (underway : Underway font screen x y more) :
    ∀ store, Access.store store ∈ calls.flatMap Call.accesses ++ more →
      store.offset < rows * columns * 2 := by
  intro store stored
  rcases List.mem_append.mp stored with done | partially
  · obtain ⟨call, membership, access⟩ := List.mem_flatMap.mp done
    exact offset_accesses (valid call membership) access
  · cases underway with
    | none => exact absurd partially List.not_mem_nil
    | inside call j validCall _ => exact offset_accesses validCall (List.mem_of_mem_take partially)

variable {font} {inputs : Nat → AvalonInput} {start s : Interface mem} {stored : Contents}

theorem stores_of_idle (lawful : mem.Lawful) {input : AvalonInput}
    (idle : input.avlWrite = false) (stores : Stores s stored) :
    Stores (step font input s) stored := by
  constructor
  · intro offset inside
    rw [byteAt, word_step_of_idle font input s lawful idle]
    exact stores.byte offset inside
  · rw [colorRegisters_step_of_idle font input s idle, stores.palette]

theorem stores_of_carries (lawful : mem.Lawful) {input : AvalonInput} {store : Store}
    (low : store.offset < 8192) (carries : Carries input store) (stores : Stores s stored) :
    Stores (step font input s) (stored.access (.store store)) := by
  constructor
  · intro offset inside
    rw [byteAt, lane_step_eq_getD font input s lawful,
      writtenLane_of_carries carries (by omega), storedAt]
    by_cases here : store.offset = offset
    · simp [Contents.access, here]
    · rw [if_neg here]
      exact (stores.byte offset inside).trans
        (Function.update_of_ne (Ne.symm here) _ _).symm
  · have vram : isPalette input.avlAddr = false := by
      rw [isPalette, BitVec.getLsbD, carries.avlAddr]
      apply Nat.testBit_lt_two_pow
      omega
    rw [colorRegisters_step_of_vram font input s vram, stores.palette]
    rfl

theorem stores_of_replaces (lawful : mem.Lawful) {input : AvalonInput}
    {assignment : Assignment} (stores : Stores s stored)
    (replaces : Replaces input assignment
      (assignment.operation (stored.palette (BitVec.ofNat 3 assignment.index)))) :
    Stores (step font input s) (stored.access (.assign assignment)) := by
  obtain ⟨palette, register⟩ := paletteAddress_spec assignment.index
  constructor
  · intro offset inside
    have other : input.avlAddr ≠ BitVec.ofNat 12 (offset / 4) := by
      intro equal
      rw [← replaces.avlAddr, equal, isPalette, BitVec.getLsbD, BitVec.toNat_ofNat,
        Nat.testBit_lt_two_pow (by omega)] at palette
      exact Bool.false_ne_true palette
    rw [byteAt, word_step_of_ne font input s lawful other]
    exact stores.byte offset inside
  · rw [step_colorRegisters, nextColorRegisters, replaces.avlCs, replaces.avlWrite,
      replaces.avlAddr, palette, register, replaces.avlWritedata, stores.palette]
    rfl

theorem stores_of_quiet (lawful : mem.Lawful) {first n : Nat} (order : first ≤ n)
    (quiet : ∀ t, first ≤ t → t < n → (inputs t).avlWrite = false)
    (stores : Stores (Clocked.run (step font) inputs start first) stored) :
    Stores (Clocked.run (step font) inputs start n) stored := by
  induction n, order using Nat.le_induction with
  | base => exact stores
  | succ n order inductionHypothesis =>
      exact stores_of_idle lawful (quiet n order (Nat.lt_succ_self n))
        (inductionHypothesis fun t begun before => quiet t begun (Nat.lt_succ_of_lt before))

theorem readdata_of_fetches {first : Nat} {assignment : Assignment}
    (stores : Stores (Clocked.run (step font) inputs start first) stored)
    (fetches : Fetches (inputs first) assignment) :
    (Clocked.run (step font) inputs start (first + 1)).avlReaddata =
      stored.palette (BitVec.ofNat 3 assignment.index) := by
  obtain ⟨palette, register⟩ := paletteAddress_spec assignment.index
  rw [Clocked.run_succ, step_avlReaddata, nextReaddata, fetches.avlCs, fetches.avlRead,
    fetches.avlAddr, palette, register, stores.palette]
  rfl

/-- What has been performed is what is stored. -/
theorem stores_of_performed (lawful : mem.Lawful) {accesses : List Access} {n : Nat}
    (low : ∀ store, Access.store store ∈ accesses → store.offset < 8192)
    (performed : Performed font inputs start accesses n) :
    Stores (Clocked.run (step font) inputs start n)
      (accesses.foldl Contents.access (contents start)) := by
  induction performed with
  | nothing => exact ⟨fun _ _ => rfl, rfl⟩
  | other _ idle inductionHypothesis =>
      exact stores_of_idle lawful idle (inductionHypothesis low)
  | @store accesses n store _ carries inductionHypothesis =>
      have earlier := inductionHypothesis fun other membership =>
        low other (List.mem_append_left _ membership)
      rw [List.foldl_append]
      exact stores_of_carries lawful (low store List.mem_concat_self) carries earlier
  | @assign accesses first n assignment _ later fetches _ quiet replaces inductionHypothesis =>
      have earlier := inductionHypothesis fun other membership =>
        low other (List.mem_append_left _ membership)
      rw [readdata_of_fetches earlier fetches] at replaces
      rw [List.foldl_append]
      exact stores_of_replaces lawful (stores_of_quiet lawful (by omega) quiet earlier) replaces

section Master

def fetchCycle (assignment : Assignment) : AvalonInput :=
  { AvalonInput.idle with
    avlCs := true
    avlRead := true
    avlAddr := paletteAddress assignment.index }

def replaceCycle (assignment : Assignment) (word : VramWord) : AvalonInput :=
  { AvalonInput.idle with
    avlCs := true
    avlWrite := true
    avlByteEn := 0b1111#4
    avlAddr := paletteAddress assignment.index
    avlWritedata := word }

/-- The bus cycles of a processor that never waits. -/
def cyclesOf (palette : Palette) : List Access → List AvalonInput
  | [] => []
  | .store store :: rest => store.cycle :: cyclesOf palette rest
  | .assign assignment :: rest =>
      fetchCycle assignment :: fetchCycle assignment ::
        replaceCycle assignment
          (assignment.operation (palette (BitVec.ofNat 3 assignment.index))) ::
        cyclesOf (assign palette assignment) rest

theorem length_cyclesOf (palette : Palette) (accesses : List Access) :
    (cyclesOf palette accesses).length ≤ 3 * accesses.length := by
  induction accesses generalizing palette with
  | nil => exact Nat.le_refl _
  | cons access rest inductionHypothesis =>
      cases access with
      | store store =>
          have bound := inductionHypothesis palette
          simp only [cyclesOf, List.length_cons]
          omega
      | assign assignment =>
          have bound := inductionHypothesis (assign palette assignment)
          simp only [cyclesOf, List.length_cons]
          omega

theorem Performed.wait {accesses : List Access} {n m : Nat}
    (performed : Performed font inputs start accesses n) (order : n ≤ m)
    (quiet : ∀ t, n ≤ t → t < m → (inputs t).avlWrite = false) :
    Performed font inputs start accesses m := by
  induction m, order using Nat.le_induction with
  | base => exact performed
  | succ m order inductionHypothesis =>
      exact .other (inductionHypothesis fun t begun before =>
        quiet t begun (Nat.lt_succ_of_lt before)) (quiet m order (Nat.lt_succ_self m))

/-- Every list of accesses can be carried out. -/
theorem performed_cyclesOf (lawful : mem.Lawful) {done rest : List Access} {n : Nat}
    (low : ∀ store, Access.store store ∈ done ++ rest → store.offset < 8192)
    (performed : Performed font inputs start done n)
    (plays : ∀ t input,
      (cyclesOf (done.foldl Contents.access (contents start)).palette rest)[t]? = some input →
        inputs (n + t) = input) :
    Performed font inputs start (done ++ rest)
      (n + (cyclesOf (done.foldl Contents.access (contents start)).palette rest).length) := by
  induction rest generalizing done n with
  | nil =>
      rw [List.append_nil]
      exact performed
  | cons access rest inductionHypothesis =>
      rw [List.append_cons] at low ⊢
      have earlier : ∀ store, Access.store store ∈ done → store.offset < 8192 :=
        fun store membership =>
          low store (List.mem_append_left _ (List.mem_append_left _ membership))
      cases access with
      | store store =>
          have cycle : inputs n = store.cycle := plays 0 _ rfl
          have inside := low store (List.mem_append_left _ List.mem_concat_self)
          have next : Performed font inputs start (done ++ [.store store]) (n + 1) :=
            .store performed (cycle ▸ carries_cycle (by omega))
          have later := inductionHypothesis low next (by
            intro t input listed
            rw [List.foldl_append] at listed
            rw [Nat.add_assoc, Nat.add_comm 1 t]
            exact plays (t + 1) input listed)
          rw [List.foldl_append] at later
          rw [cyclesOf, List.length_cons, Nat.add_comm _ 1, ← Nat.add_assoc]
          exact later
      | assign assignment =>
          have first : inputs n = fetchCycle assignment := plays 0 _ rfl
          have second : inputs (n + 1) = fetchCycle assignment := plays 1 _ rfl
          have last := plays 2 _ rfl
          have word := readdata_of_fetches (stores_of_performed lawful earlier performed)
            (first ▸ (⟨rfl, rfl, rfl, rfl⟩ : Fetches (fetchCycle assignment) assignment))
          have next : Performed font inputs start (done ++ [.assign assignment]) (n + 3) := by
            apply Performed.assign performed (Nat.lt_succ_self (n + 1))
            · exact first ▸ ⟨rfl, rfl, rfl, rfl⟩
            · exact second ▸ ⟨rfl, rfl, rfl, rfl⟩
            · intro t begun before
              obtain rfl | rfl : t = n ∨ t = n + 1 := by omega
              · rw [first]
                rfl
              · rw [second]
                rfl
            · rw [word, last]
              exact ⟨rfl, rfl, rfl, rfl⟩
          have later := inductionHypothesis low next (by
            intro t input listed
            rw [List.foldl_append] at listed
            rw [Nat.add_assoc, Nat.add_comm 3 t]
            exact plays (t + 3) input listed)
          rw [List.foldl_append] at later
          simp only [cyclesOf, List.length_cons]
          rw [show ∀ length, n + (length + 1 + 1 + 1) = n + 3 + length by intro length; omega]
          exact later

theorem reset_cyclesOf (palette : Palette) (accesses : List Access) :
    ∀ input ∈ cyclesOf palette accesses, input.reset = false := by
  induction accesses generalizing palette with
  | nil => exact nofun
  | cons access rest inductionHypothesis =>
      intro input membership
      cases access with
      | store store =>
          rcases List.mem_cons.mp membership with rfl | later
          · rfl
          · exact inductionHypothesis palette input later
      | assign assignment =>
          simp only [cyclesOf, List.mem_cons] at membership
          rcases membership with rfl | rfl | rfl | later
          · rfl
          · rfl
          · rfl
          · exact inductionHypothesis _ input later

/-- These accesses and nothing after them. -/
def waveform (palette : Palette) (accesses : List Access) (t : Nat) : AvalonInput :=
  (cyclesOf palette accesses).getD t AvalonInput.idle

theorem waveform_of_length_le {palette : Palette} {accesses : List Access} {t : Nat}
    (after : (cyclesOf palette accesses).length ≤ t) :
    waveform palette accesses t = AvalonInput.idle :=
  List.getD_eq_default _ _ after

theorem reset_waveform (palette : Palette) (accesses : List Access) (t : Nat) :
    (waveform palette accesses t).reset = false := by
  by_cases inside : t < (cyclesOf palette accesses).length
  · rw [waveform, List.getD_eq_getElem _ _ inside]
    exact reset_cyclesOf palette accesses _ (List.getElem_mem inside)
  · rw [waveform_of_length_le (Nat.le_of_not_lt inside)]
    rfl

theorem performed_waveform (lawful : mem.Lawful) {accesses : List Access} {n : Nat}
    (low : ∀ store, Access.store store ∈ accesses → store.offset < 8192)
    (late : 3 * accesses.length ≤ n) :
    Performed font (waveform start.colorRegisters accesses) start accesses n := by
  have played : Performed font (waveform start.colorRegisters accesses) start ([] ++ accesses)
      (0 + (cyclesOf start.colorRegisters accesses).length) := by
    apply performed_cyclesOf lawful low .nothing
    intro t input listed
    rw [Nat.zero_add, waveform, List.getD_eq_getElem?_getD]
    exact congrArg (fun entry => entry.getD AvalonInput.idle) listed
  rw [Nat.zero_add] at played
  have bound := length_cyclesOf start.colorRegisters accesses
  apply played.wait (Nat.le_trans bound late)
  intro t after _
  rw [waveform_of_length_le after]
  rfl

theorem quiet_waveform {palette : Palette} {accesses : List Access} {t : Nat}
    (late : 3 * accesses.length ≤ t) : (waveform palette accesses t).avlWrite = false := by
  rw [waveform_of_length_le (Nat.le_trans (length_cyclesOf palette accesses) late)]
  rfl

end Master

end Driver

end DigitalSystems.Vga
