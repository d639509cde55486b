import DigitalSystems.Soc.SlaveTranslator
import DigitalSystems.Vga.Accesses

/-!
# The display behind its translator

The translator `VGA_text_mode_controller_0_avl_mm_slave_translator` and the text-mode
interface, cycle by cycle, carry out the transactions that the universal side asks for.
-/

namespace DigitalSystems.Soc

open Vga (AvalonInput FontRom Interface Onchipmem Transaction VramWord)
open Vga.Interface (after returned)

/-- A read waits for one cycle, a write for none. -/
def vgaCycles : WaitCycles where
  avReadWaitCycles := 1
  avWriteWaitCycles := 0
  avSetupWaitCycles := 0
  avDataHoldCycles := 0

structure VgaSlave (mem : Onchipmem) where
  translator : SlaveTranslator vgaCycles
  interface : Interface mem

namespace VgaSlave

variable {mem : Onchipmem}

/-- The slave side of the translator: the address counts words. -/
def avalon (uav : UavInput) (s : SlaveTranslator vgaCycles) : AvalonInput where
  reset := uav.reset
  avlRead := s.avRead uav
  avlWrite := s.avWrite uav
  avlCs := SlaveTranslator.avChipselect uav
  avlByteEn := uav.uavByteenable
  avlAddr := uav.uavAddress.extractLsb' 2 12
  avlWritedata := uav.uavWritedata

def step (font : FontRom) (uav : UavInput) (s : VgaSlave mem) : VgaSlave mem where
  translator := s.translator.step uav s.interface.avlReaddata
  interface := Interface.step font (avalon uav s.translator) s.interface

/-- The signals of a request other than the strobes. -/
def lines (uav : UavInput) : AvalonInput where
  reset := false
  avlRead := false
  avlWrite := false
  avlCs := false
  avlByteEn := uav.uavByteenable
  avlAddr := uav.uavAddress.extractLsb' 2 12
  avlWritedata := uav.uavWritedata

def transaction (uav : UavInput) : Transaction :=
  if uav.uavWrite then .write (lines uav)
  else if uav.uavRead then .read (lines uav)
  else .idle (lines uav)

section Run

variable (font : FontRom) (uav : Nat → UavInput) (start : VgaSlave mem)

def states (n : Nat) : VgaSlave mem := Clocked.run (step font) uav start n

/-- The request of cycle `n` has to wait. -/
def stalls (n : Nat) : Bool :=
  (uav n).requests && (states font uav start n).translator.uavWaitrequest (uav n)

/-- The transactions that are over before cycle `n`. -/
def history : Nat → List Transaction
  | 0 => []
  | n + 1 =>
      if stalls font uav start n then history n
      else history n ++ [transaction (uav n)]

/-- The reset is over, a request is of one kind and stays while it has to wait. -/
structure Master : Prop where
  released : ∀ t, (uav t).reset = false
  single : ∀ t, (uav t).uavRead = true → (uav t).uavWrite = false
  held : ∀ t, stalls font uav start t = true → uav (t + 1) = uav t

end Run

/-- Between two transactions, or in the second cycle of a read. -/
inductive Follows (font : FontRom) (uav : UavInput) (s : VgaSlave mem)
    (reached : Interface mem) : Prop where
  | between : s.translator.Waited 0 → s.interface = reached → Follows font uav s reached
  | reading : s.translator.Waited 1 → uav.uavRead = true → uav.uavWrite = false →
      s.interface = Interface.step font (Transaction.readCycle (lines uav)) reached →
      Follows font uav s reached

section Step

variable {font : FontRom} {uav next : UavInput} {s : VgaSlave mem} {reached : Interface mem}
  {j : Nat}

theorem avalon_eq (waited : s.translator.Waited j) (bound : j ≤ vgaCycles.waits uav)
    (reset : uav.reset = false) :
    avalon uav s.translator =
      { lines uav with
        avlCs := uav.requests
        avlRead := uav.uavRead
        avlWrite := decide (j = 0) && uav.uavWrite } := by
  have setup : decide (vgaCycles.avSetupWaitCycles ≤ j) = true := decide_eq_true (Nat.zero_le j)
  have read : s.translator.avRead uav = _ := SlaveTranslator.avRead_eq waited
  have write : s.translator.avWrite uav = (decide (j = 0) && uav.uavWrite) := by
    rw [SlaveTranslator.avWrite_eq waited bound]
    congr 1
    rw [decide_eq_decide]
    exact ⟨fun timed => Nat.le_zero.mp timed.2, fun first => by subst first; decide⟩
  rw [setup, Bool.true_and] at read
  rw [avalon, read, write, reset]
  rfl

theorem waits_of_write (write : uav.uavWrite = true) : vgaCycles.waits uav = 0 := by
  rw [WaitCycles.waits, if_pos write]
  rfl

theorem waits_of_not_write (noWrite : uav.uavWrite = false) : vgaCycles.waits uav = 1 := by
  rw [WaitCycles.waits, noWrite]
  rfl

theorem released_of_follows (follows : Follows font uav s reached) :
    s.translator.waitrequestResetOverride = false := by
  cases follows with
  | between waited _ => exact waited.released
  | reading waited _ _ _ => exact waited.released

theorem follows_idle (follows : Follows font uav s reached) (reset : uav.reset = false)
    (idle : uav.requests = false) :
    Follows font next (step font uav s) (Interface.apply font reached (transaction uav)) := by
  obtain ⟨noRead, noWrite⟩ := Bool.or_eq_false_iff.mp idle
  cases follows with
  | reading _ read => exact absurd (read.symm.trans noRead) nofun
  | between waited same =>
      refine .between (SlaveTranslator.step_of_idle _ reset idle).1 ?_
      rw [step, avalon_eq waited (Nat.zero_le _) reset, same, transaction, noWrite, noRead, idle]
      rfl

theorem follows_write (follows : Follows font uav s reached) (reset : uav.reset = false)
    (noRead : uav.uavRead = false) (write : uav.uavWrite = true) :
    s.translator.uavWaitrequest uav = false ∧
      Follows font next (step font uav s)
        (Interface.apply font reached (transaction uav)) := by
  have none := waits_of_write write
  cases follows with
  | reading _ read => exact absurd (read.symm.trans noRead) nofun
  | between waited same =>
      have ready := SlaveTranslator.uavWaitrequest_eq waited (Nat.zero_le (vgaCycles.waits uav))
      rw [← none] at waited
      have ends := SlaveTranslator.Waited.step_of_last s.interface.avlReaddata waited reset
      rw [none] at ready waited
      refine ⟨ready, .between ends.1 ?_⟩
      rw [step, avalon_eq waited (Nat.zero_le _) reset, same, transaction, UavInput.requests,
        write, noRead]
      rfl

/-- The first cycle of a read waits, the second ends it and has the answer. -/
theorem follows_read (follows : Follows font uav s reached) (reset : uav.reset = false)
    (read : uav.uavRead = true) (noWrite : uav.uavWrite = false)
    (held : s.translator.uavWaitrequest uav = true → next = uav) :
    (s.translator.uavWaitrequest uav = true ∧ Follows font next (step font uav s) reached) ∨
      s.translator.uavWaitrequest uav = false ∧
        Follows font next (step font uav s)
          (Interface.apply font reached (transaction uav)) ∧
        (step font uav s).translator.uavReaddata =
          (Interface.step font (Transaction.readCycle (lines uav)) reached).avlReaddata := by
  have one := waits_of_not_write noWrite
  have requests : uav.requests = true := by rw [UavInput.requests, read, Bool.true_or]
  have cycle : ∀ {j}, s.translator.Waited j → j ≤ 1 →
      avalon uav s.translator = Transaction.readCycle (lines uav) := by
    intro j waited bound
    rw [avalon_eq waited (one.symm ▸ bound) reset, requests, read, noWrite, Bool.and_false]
    rfl
  cases follows with
  | between waited same =>
      have stalls := SlaveTranslator.uavWaitrequest_eq waited
        (Nat.zero_le (vgaCycles.waits uav))
      rw [one] at stalls
      refine Or.inl ⟨stalls, ?_⟩
      rw [held stalls]
      refine .reading (waited.step_of_waiting _ (one.symm ▸ Nat.one_pos) reset requests) read
        noWrite ?_
      rw [step, cycle waited (Nat.zero_le 1), same]
  | reading waited _ _ same =>
      have ready := SlaveTranslator.uavWaitrequest_eq waited (Nat.le_of_eq one.symm)
      rw [one] at ready
      have last := waited
      rw [← one] at last
      have ends := SlaveTranslator.Waited.step_of_last s.interface.avlReaddata last reset
      refine Or.inr ⟨ready, .between ends.1 ?_, ?_⟩
      · rw [step, cycle waited (Nat.le_refl 1), same, transaction, noWrite, read]
        rfl
      · rw [← same]
        exact ends.2.2

end Step

section Run

variable {font : FontRom} {uav : Nat → UavInput} {start : VgaSlave mem}

theorem follows_run (rest : start.translator.Waited 0) (master : Master font uav start)
    (n : Nat) :
    Follows font (uav n) (states font uav start n)
      (after font start.interface (history font uav start n)) := by
  induction n with
  | zero => exact .between rest rfl
  | succ n inductionHypothesis =>
      have apply : ∀ transaction, after font start.interface
          (history font uav start n ++ [transaction]) =
            Interface.apply font (after font start.interface (history font uav start n))
              transaction := by
        intro transaction
        rw [after, List.foldl_append, after]
        rfl
      have reset := master.released n
      have held := master.held n
      rw [history, states, Clocked.run_succ, ← states]
      cases requests : (uav n).requests with
      | false =>
          rw [stalls, requests, Bool.false_and, if_neg Bool.false_ne_true, apply]
          exact follows_idle inductionHypothesis reset requests
      | true =>
          rw [stalls, requests, Bool.true_and] at held ⊢
          cases read : (uav n).uavRead with
          | false =>
              have write : (uav n).uavWrite = true := by
                rw [UavInput.requests, read, Bool.false_or] at requests
                exact requests
              obtain ⟨ready, follows⟩ :=
                @follows_write _ _ _ (uav (n + 1)) _ _ inductionHypothesis reset read write
              rw [ready, if_neg Bool.false_ne_true, apply]
              exact follows
          | true =>
              rcases follows_read inductionHypothesis reset read (master.single n read) held with
                ⟨waits, follows⟩ | ⟨ends, follows, -⟩
              · rw [if_pos waits]
                exact follows
              · rw [ends, if_neg Bool.false_ne_true, apply]
                exact follows

/-- At every time the interface has carried out the transactions that are over, and a read
is answered in the cycle after its last with the word that the read register held. -/
theorem refines_transactions (font : FontRom) (rest : start.translator.Waited 0)
    (master : Master font uav start) (n : Nat) :
    Follows font (uav n) (states font uav start n)
        (after font start.interface (history font uav start n)) ∧
      (states font uav start (n + 1)).translator.uavReaddatavalid =
        ((uav n).uavRead && !stalls font uav start n) ∧
      ((states font uav start (n + 1)).translator.uavReaddatavalid = true →
        (states font uav start (n + 1)).translator.uavReaddata =
          returned font start.interface (history font uav start n) (lines (uav n))) := by
  have follows := follows_run rest master n
  have reset := master.released n
  have valid : (states font uav start (n + 1)).translator.uavReaddatavalid =
      ((uav n).uavRead && !stalls font uav start n) := by
    rw [states, Clocked.run_succ, ← states, stalls, UavInput.requests]
    refine (SlaveTranslator.uavReaddatavalid_step _ reset (released_of_follows follows)).trans ?_
    cases (uav n).uavRead <;> rfl
  refine ⟨follows, valid, ?_⟩
  intro answered
  rw [valid, Bool.and_eq_true, Bool.not_eq_true'] at answered
  obtain ⟨read, ready⟩ := answered
  rw [stalls, UavInput.requests, read, Bool.true_or, Bool.true_and] at ready
  have noWrite := master.single n read
  have held : (states font uav start n).translator.uavWaitrequest (uav n) = true →
      uav n = uav n := fun _ => rfl
  rcases follows_read follows reset read noWrite held with ⟨waits, -⟩ | ⟨-, -, word⟩
  · exact absurd (ready.symm.trans waits) nofun
  · exact word

def readWordOne : UavInput where
  reset := false
  uavAddress := 4#28
  uavWritedata := 0#32
  uavWrite := false
  uavRead := true
  uavByteenable := 0b1111#4

def restedSlave : VgaSlave Onchipmem.reference where
  translator := { SlaveTranslator.zero with waitrequestResetOverride := false }
  interface := Interface.cleared

theorem refines_transactions_readWordOne :
    Follows (fun _ => 0#8) readWordOne
        (states (fun _ => 0#8) (fun _ => readWordOne) restedSlave 1)
        (after (fun _ => 0#8) Interface.cleared
          (history (fun _ => 0#8) (fun _ => readWordOne) restedSlave 1)) ∧
      (states (fun _ => 0#8) (fun _ => readWordOne) restedSlave 2).translator.uavReaddatavalid =
        (true && !stalls (fun _ => 0#8) (fun _ => readWordOne) restedSlave 1) ∧
      ((states (fun _ => 0#8) (fun _ => readWordOne)
          restedSlave 2).translator.uavReaddatavalid = true →
        (states (fun _ => 0#8) (fun _ => readWordOne) restedSlave 2).translator.uavReaddata =
          returned (fun _ => 0#8) Interface.cleared
            (history (fun _ => 0#8) (fun _ => readWordOne) restedSlave 1)
            (lines readWordOne)) :=
  have rest : restedSlave.translator.Waited 0 := ⟨rfl, rfl⟩
  have master : Master (fun _ => 0#8) (fun _ => readWordOne) restedSlave :=
    ⟨fun _ => rfl, fun _ _ => rfl, fun _ _ => rfl⟩
  refines_transactions (fun _ => 0#8) rest master 1

end Run

section Accesses

open Vga.Driver

variable (font : FontRom) (uav : Nat → UavInput) (start : VgaSlave mem)

/-- What the interface sees of the bus. -/
def bus (t : Nat) : AvalonInput := avalon (uav t) (states font uav start t).translator

theorem interface_run (n : Nat) :
    (states font uav start n).interface =
      Clocked.run (Interface.step font) (bus font uav start) start.interface n := by
  induction n with
  | zero => rfl
  | succ n inductionHypothesis =>
      rw [Clocked.run_succ, ← inductionHypothesis]
      rfl

/-- A request that writes `word` to this word of the interface, in these lanes. -/
structure Writes (uav : UavInput) (word : Nat) (lanes : BitVec 4) : Prop where
  uavWrite : uav.uavWrite = true
  uavAddress : uav.uavAddress.toNat / 4 % 4096 = word
  uavByteenable : uav.uavByteenable = lanes

/-- By cycle `n` these accesses have been requested, in this order, and no other write.  A
word is read with a request that begins in cycle `first` and is answered two cycles later;
the write may follow at any time. -/
inductive Requested : List Access → Nat → Prop where
  | nothing : Requested [] 0
  | other {accesses n} : Requested accesses n → (uav n).uavWrite = false →
      Requested accesses (n + 1)
  | store {accesses n} {store : Store} : Requested accesses n →
      Writes (uav n) (store.offset / 4) (1#4 <<< (store.offset % 4)) →
      Clocked.lane 8 (uav n).uavWritedata (store.offset % 4) = store.value →
      Requested (accesses ++ [.store store]) (n + 1)
  | assign {accesses first n} {assignment : Assignment} : Requested accesses first →
      (uav first).uavRead = true → stalls font uav start first = true →
      (uav first).uavAddress.toNat / 4 % 4096 = (paletteAddress assignment.index).toNat →
      first + 1 < n → (∀ t, first ≤ t → t < n → (uav t).uavWrite = false) →
      Writes (uav n) (paletteAddress assignment.index).toNat 0b1111#4 →
      (uav n).uavWritedata =
        assignment.operation (states font uav start (first + 2)).translator.uavReaddata →
      Requested (accesses ++ [.assign assignment]) (n + 1)

variable {font uav start}

theorem bus_eq (rest : start.translator.Waited 0) (master : Master font uav start) (n : Nat) :
    bus font uav start n =
      { lines (uav n) with
        avlCs := (uav n).requests
        avlRead := (uav n).uavRead
        avlWrite := (uav n).uavWrite } := by
  have reset := master.released n
  cases follows_run rest master n with
  | between waited _ =>
      rw [bus, avalon_eq waited (Nat.zero_le _) reset, decide_eq_true rfl, Bool.true_and]
  | reading waited _ noWrite _ =>
      have bound : 1 ≤ vgaCycles.waits (uav n) :=
        Nat.le_of_eq (waits_of_not_write noWrite).symm
      rw [bus, avalon_eq waited bound reset, noWrite, Bool.and_false]

theorem toNat_avlAddr (uav : UavInput) :
    (lines uav).avlAddr.toNat = uav.uavAddress.toNat / 4 % 4096 := by
  rw [lines, BitVec.extractLsb'_toNat, Nat.shiftRight_eq_div_pow]

theorem fetches_of_reads (rest : start.translator.Waited 0) (master : Master font uav start)
    {n : Nat} {assignment : Assignment} (reads : (uav n).uavRead = true)
    (address : (uav n).uavAddress.toNat / 4 % 4096 =
      (paletteAddress assignment.index).toNat) :
    Fetches (bus font uav start n) assignment := by
  rw [bus_eq rest master]
  constructor
  case avlCs => exact (congrArg (· || (uav n).uavWrite) reads).trans (Bool.true_or _)
  case avlRead => exact reads
  case avlWrite => exact master.single n reads
  case avlAddr => exact BitVec.eq_of_toNat_eq ((toNat_avlAddr (uav n)).trans address)

theorem uavReaddata_succ (master : Master font uav start) (n : Nat) :
    (states font uav start (n + 1)).translator.uavReaddata =
      (states font uav start n).interface.avlReaddata := by
  rw [states, Clocked.run_succ, ← states]
  simp [step, SlaveTranslator.step, SlaveTranslator.uavReaddata, master.released n]

/-- Requested accesses are performed, each once and in order. -/
theorem performed_of_requested (rest : start.translator.Waited 0)
    (master : Master font uav start) {accesses : List Access} {n : Nat}
    (requested : Requested font uav start accesses n) :
    Performed font (bus font uav start) start.interface accesses n := by
  have requests : ∀ t, (uav t).uavWrite = true → (uav t).requests = true :=
    fun t write => (congrArg ((uav t).uavRead || ·) write).trans (Bool.or_true _)
  induction requested with
  | nothing => exact .nothing
  | other _ idle inductionHypothesis =>
      refine .other inductionHypothesis ?_
      rw [bus_eq rest master]
      exact idle
  | @store accesses n store _ writes value inductionHypothesis =>
      refine .store inductionHypothesis ?_
      rw [bus_eq rest master]
      constructor
      case avlCs => exact requests n writes.uavWrite
      case avlWrite => exact writes.uavWrite
      case avlAddr => exact (toNat_avlAddr (uav n)).trans writes.uavAddress
      case avlByteEn => exact writes.uavByteenable
      case value => exact value
  | @assign accesses first n assignment _ reads waits address later quiet writes word
      inductionHypothesis =>
      have again := master.held first waits
      refine .assign inductionHypothesis later
        (fetches_of_reads rest master reads address)
        (fetches_of_reads rest master (again ▸ reads) (again ▸ address)) ?_ ?_
      · intro t begun before
        rw [bus_eq rest master]
        exact quiet t begun before
      · rw [uavReaddata_succ master, interface_run] at word
        rw [bus_eq rest master]
        constructor
        case avlCs => exact requests n writes.uavWrite
        case avlWrite => exact writes.uavWrite
        case avlAddr =>
          exact BitVec.eq_of_toNat_eq ((toNat_avlAddr (uav n)).trans writes.uavAddress)
        case avlWritedata => exact word

/-- `palette[1] += (14 << 9) + (6 << 5) + (2 << 1)`. -/
def addsOrange : Assignment := ⟨1, fun word => word + 0x1CC4#32⟩

/-- Two stores, the read of a palette word and, a cycle later, its write. -/
def storesFirst (t : Nat) : UavInput where
  reset := false
  uavAddress := if t < 2 then 0#28 else 0x2004#28
  uavWritedata := if t = 0 then 0x41#32 else if t = 1 then 0xF100#32 else 0x1CC4#32
  uavWrite := t == 0 || t == 1 || t == 5
  uavRead := t == 2 || t == 3
  uavByteenable := if t = 0 then 0b0001#4 else if t = 1 then 0b0010#4 else 0b1111#4

theorem stalls_storesFirst (t : Nat) :
    stalls (fun _ => 0#8) storesFirst restedSlave t = true ↔ t = 2 :=
  match t with
  | 0 | 1 | 2 | 3 | 4 | 5 => by decide
  | t + 6 => by
    have idle : (storesFirst (t + 6)).requests = false := rfl
    rw [stalls, idle, Bool.false_and]
    exact ⟨nofun, by omega⟩

theorem performed_of_requested_storesFirst :
    Performed (fun _ => 0#8) (bus (fun _ => 0#8) storesFirst restedSlave) Interface.cleared
      ([] ++ [.store { offset := 0, value := 0x41#8 }] ++
        [.store { offset := 1, value := 0xF1#8 }] ++ [.assign addsOrange]) 6 :=
  have rest : restedSlave.translator.Waited 0 := ⟨rfl, rfl⟩
  have master : Master (fun _ => 0#8) storesFirst restedSlave :=
    ⟨fun _ => rfl,
      fun t reads => by
        simp only [storesFirst, Bool.or_eq_true, beq_iff_eq] at reads
        rcases reads with rfl | rfl
        · rfl
        · rfl,
      fun t waits => by
        obtain rfl := (stalls_storesFirst t).mp waits
        rfl⟩
  performed_of_requested rest master
    (.assign (.store (.store .nothing ⟨rfl, rfl, rfl⟩ rfl) ⟨rfl, rfl, rfl⟩ rfl) rfl
      ((stalls_storesFirst 2).mpr rfl) rfl (by decide)
      (fun t begun before => by
        have middle : t = 2 ∨ t = 3 ∨ t = 4 := by omega
        rcases middle with rfl | rfl | rfl
        · rfl
        · rfl
        · rfl)
      ⟨rfl, rfl, rfl⟩ (by decide))

end Accesses

end VgaSlave

end DigitalSystems.Soc
