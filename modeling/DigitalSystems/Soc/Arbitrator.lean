import DigitalSystems.Arith.FirstBit
import DigitalSystems.Clocked.Counting
import DigitalSystems.Clocked.Run

/-!
# The round-robin arbitrator

`altera_merlin_arbitrator` for any number of requesters.  The circular search for the next
one is an addition: a one at the place of top priority, added to two copies of the
complement of the requests.
-/

namespace DigitalSystems.Soc

open Arith (FirstAround distance)

structure Arbitrator (size : Nat) where
  topPriorityReg : BitVec size

structure ArbitratorInput (size : Nat) where
  reset : Bool
  request : BitVec size
  incrementTopPriority : Bool
  saveTopPriority : Bool

namespace Arbitrator

variable {size : Nat}

/-- A single requester is at the top for ever. -/
def topPriority (s : Arbitrator size) : BitVec size :=
  if 1 < size then s.topPriorityReg else 1#(size)

/-- `altera_merlin_arb_adder`: a ripple of full adders when it is narrow. -/
def arbAdder {width : Nat} (a b : BitVec width) : BitVec width :=
  if width ≤ 8 then (BitVec.adc a b false).2 else a + b

def grant (request : BitVec size) (s : Arbitrator size) : BitVec size :=
  let result := arbAdder (~~~request ++ ~~~request) (0#(size) ++ s.topPriority)
  let grantDoubleVector := (request ++ request) &&& result
  grantDoubleVector.extractLsb' 0 size ||| grantDoubleVector.extractLsb' size size

/-- `{ vector[size-2:0], vector[size-1] }` -/
def rotated (vector : BitVec size) : BitVec size :=
  (vector.concat (vector.getLsbD (size - 1))).setWidth size

def nextTopPriority (pipeline : Bool) (input : ArbitratorInput size) (s : Arbitrator size) :
    BitVec size :=
  if pipeline then
    if input.incrementTopPriority then
      if input.request ≠ 0#(size) then rotated (s.grant input.request) else s.topPriorityReg
    else s.topPriorityReg
  else if input.incrementTopPriority then
    if input.request ≠ 0#(size) then rotated (s.grant input.request) else rotated s.topPriorityReg
  else if input.saveTopPriority then s.grant input.request
  else s.topPriorityReg

def step (pipeline : Bool) (input : ArbitratorInput size) (s : Arbitrator size) :
    Arbitrator size :=
  if input.reset then { topPriorityReg := 1#(size) }
  else { topPriorityReg := s.nextTopPriority pipeline input }

/-- The top priority is at one place. -/
def Top (s : Arbitrator size) (place : Nat) : Prop :=
  place < size ∧ s.topPriorityReg = BitVec.twoPow size place

theorem topPriority_eq {s : Arbitrator size} {place : Nat} (top : s.Top place) :
    s.topPriority = BitVec.twoPow size place := by
  obtain ⟨inside, saved⟩ := top
  rw [topPriority]
  split_ifs with several
  · exact saved
  · obtain rfl : place = 0 := by omega
    exact BitVec.twoPow_zero.symm

theorem arbAdder_eq {width : Nat} (a b : BitVec width) : arbAdder a b = a + b := by
  unfold arbAdder
  split
  · rw [BitVec.adc_spec]
    simp
  · rfl

def nextPlace (size place : Nat) : Nat := if place + 1 = size then 0 else place + 1

theorem nextPlace_lt {place : Nat} (inside : place < size) : nextPlace size place < size := by
  unfold nextPlace
  split <;> omega

theorem getLsbD_twoPow_of_lt {place i : Nat} (inside : i < size) :
    (BitVec.twoPow size place).getLsbD i = decide (place = i) := by
  rw [BitVec.getLsbD_twoPow, Bool.and_eq_right_iff_imp]
  intro same
  have equal := of_decide_eq_true same
  exact decide_eq_true (by omega)

theorem rotated_twoPow {place : Nat} (inside : place < size) :
    rotated (BitVec.twoPow size place) = BitVec.twoPow size (nextPlace size place) := by
  apply BitVec.eq_of_getLsbD_eq
  intro i bound
  rw [rotated, BitVec.getLsbD_setWidth, decide_eq_true bound, Bool.true_and,
    BitVec.getLsbD_concat, getLsbD_twoPow_of_lt bound,
    getLsbD_twoPow_of_lt (show size - 1 < size by omega), nextPlace]
  split_ifs with low last last
  · rw [decide_eq_decide]
    omega
  · rw [decide_eq_decide]
    omega
  · rw [getLsbD_twoPow_of_lt (by omega), decide_eq_decide]
    omega
  · rw [getLsbD_twoPow_of_lt (by omega), decide_eq_decide]
    omega

section Grant

variable {s : Arbitrator size} {place : Nat} (request : BitVec size)

theorem getLsbD_grant (top : s.Top place) {i : Nat} (inside : i < size) :
    (s.grant request).getLsbD i = true ↔ FirstAround request place i := by
  have one : 0#(size) ++ s.topPriority = BitVec.twoPow (size + size) place := by
    apply BitVec.eq_of_getLsbD_eq
    intro i bound
    rw [BitVec.getLsbD_append, topPriority_eq top, getLsbD_twoPow_of_lt bound]
    have := top.1
    split_ifs with low
    · exact getLsbD_twoPow_of_lt low
    · rw [BitVec.getLsbD_zero, eq_comm, decide_eq_false_iff_not]
      omega
  rw [← Arith.firstFrom_twice request top.1 inside, ← Arith.getLsbD_first,
    ← Arith.getLsbD_first, grant, one, arbAdder_eq, ← BitVec.not_append]
  generalize (request ++ request) &&&
    (~~~(request ++ request) + BitVec.twoPow (size + size) place) = double
  rw [BitVec.getLsbD_or, Bool.or_eq_true, BitVec.getLsbD_extractLsb',
    BitVec.getLsbD_extractLsb', decide_eq_true inside, Bool.true_and, Bool.true_and,
    Nat.zero_add, Nat.add_comm size i]

/-- The grant is at the first request from the top priority on, going round. -/
theorem grant_eq (top : s.Top place) {i : Nat} (first : FirstAround request place i) :
    s.grant request = BitVec.twoPow size i := by
  apply BitVec.eq_of_getLsbD_eq
  intro j bound
  rw [getLsbD_twoPow_of_lt bound, Bool.eq_iff_iff, getLsbD_grant request top bound,
    decide_eq_true_iff]
  constructor
  · exact fun other => first.unique top.1 other
  · rintro rfl
    exact first

theorem grant_zero (top : s.Top place) : s.grant 0#(size) = 0#(size) := by
  apply BitVec.eq_of_getLsbD_eq
  intro i bound
  rw [BitVec.getLsbD_zero, Bool.eq_false_iff]
  intro granted
  have set := ((getLsbD_grant 0#(size) top bound).mp granted).1
  exact absurd (BitVec.getLsbD_zero.symm.trans set) nofun

end Grant

/-- Unpipelined, the top priority may only be saved while something is requested: it would
be lost otherwise, and with it every later grant. -/
structure Legal (pipeline : Bool) (input : ArbitratorInput size) : Prop where
  released : input.reset = false
  saves : pipeline = false → input.saveTopPriority = true →
    input.incrementTopPriority = false → input.request ≠ 0#(size)

section Step

variable {pipeline : Bool} {input : ArbitratorInput size} {s : Arbitrator size} {place : Nat}

/-- What one edge does to the top priority. -/
theorem step_cases (legal : Legal pipeline input) (top : s.Top place) :
    (input.incrementTopPriority = true ∧ ∃ i, FirstAround input.request place i ∧
        (s.step pipeline input).Top (nextPlace size i)) ∨
      (input.incrementTopPriority = true ∧ input.request = 0#(size) ∧
        ∃ place', (s.step pipeline input).Top place') ∨
      (input.incrementTopPriority = false ∧ ∃ i, FirstAround input.request place i ∧
        (s.step pipeline input).Top i) ∨
      input.incrementTopPriority = false ∧ (s.step pipeline input).Top place := by
  have inside := top.1
  rw [step, legal.released, if_neg Bool.false_ne_true, nextTopPriority]
  cases increment : input.incrementTopPriority with
  | true =>
      by_cases idle : input.request = 0#(size)
      · refine Or.inr (Or.inl ⟨rfl, idle, ?_⟩)
        cases pipeline with
        | true => exact ⟨place, inside, by simp [idle, top.2]⟩
        | false =>
            refine ⟨nextPlace size place, nextPlace_lt inside, ?_⟩
            simp [idle, top.2, rotated_twoPow inside]
      · obtain ⟨i, first⟩ := Arith.exists_firstAround idle place
        refine Or.inl ⟨rfl, i, first, nextPlace_lt first.lt, ?_⟩
        have next := rotated_twoPow first.lt
        rw [← grant_eq _ top first] at next
        cases pipeline <;> simp [idle, next]
  | false =>
      refine Or.inr (Or.inr ?_)
      by_cases saves : pipeline = false ∧ input.saveTopPriority = true
      · obtain ⟨i, first⟩ :=
          Arith.exists_firstAround (legal.saves saves.1 saves.2 increment) place
        refine Or.inl ⟨rfl, i, first, first.lt, ?_⟩
        simp [saves.1, saves.2, grant_eq _ top first]
      · refine Or.inr ⟨rfl, inside, ?_⟩
        cases pipeline with
        | true => simp [top.2]
        | false =>
            have kept : input.saveTopPriority = false := by simpa using saves
            simp [kept, top.2]

theorem top_step (legal : Legal pipeline input) (top : s.Top place) :
    ∃ place', (s.step pipeline input).Top place' := by
  rcases step_cases legal top with ⟨-, i, -, next⟩ | ⟨-, -, next⟩ | ⟨-, i, -, next⟩ | ⟨-, next⟩
  · exact ⟨_, next⟩
  · exact next
  · exact ⟨i, next⟩
  · exact ⟨place, next⟩

/-- Whoever is passed over comes nearer to the top. -/
theorem nearer_step (legal : Legal pipeline input) (top : s.Top place) {k : Nat}
    (asks : input.request.getLsbD k = true)
    (passed : input.incrementTopPriority = true → (s.grant input.request).getLsbD k = false) :
    ∃ place', (s.step pipeline input).Top place' ∧
      distance size place' k + (if input.incrementTopPriority then 1 else 0) ≤
        distance size place k := by
  have bound : k < size := BitVec.lt_of_getLsbD asks
  rcases step_cases legal top with
    ⟨increment, i, first, next⟩ | ⟨-, idle, -⟩ | ⟨increment, i, first, next⟩ | ⟨increment, next⟩
  · have other : i ≠ k := by
      rintro rfl
      have granted := (getLsbD_grant _ top bound).mpr first
      exact absurd (granted.symm.trans (passed increment)) nofun
    have nearer : distance size place i < distance size place k :=
      Nat.lt_of_le_of_ne (first.2 k asks) fun equal =>
        other (Arith.distance_inj top.1 first.lt bound equal)
    rw [increment]
    exact ⟨_, next, Arith.distance_next top.1 bound nearer⟩
  · rw [idle] at asks
    exact absurd (BitVec.getLsbD_zero.symm.trans asks) nofun
  · rw [increment]
    exact ⟨i, next, Arith.distance_le top.1 bound (first.2 k asks)⟩
  · rw [increment]
    exact ⟨place, next, Nat.le_refl _⟩

end Step

/-- What a reset leaves. -/
def initial : Arbitrator size where
  topPriorityReg := 1#(size)

section Run

variable {pipeline : Bool} {inputs : Nat → ArbitratorInput size}

theorem top_run (positive : 0 < size) (legal : ∀ t, Legal pipeline (inputs t)) (n : Nat) :
    ∃ place, (Clocked.run (step pipeline) inputs initial n).Top place := by
  induction n with
  | zero => exact ⟨0, positive, (BitVec.twoPow_zero).symm⟩
  | succ n inductionHypothesis =>
      obtain ⟨place, top⟩ := inductionHypothesis
      exact top_step (legal n) top

theorem nearer_run (legal : ∀ t, Legal pipeline (inputs t)) {start : Arbitrator size}
    {place k first last : Nat} (order : first ≤ last)
    (top : (Clocked.run (step pipeline) inputs start first).Top place)
    (asks : ∀ t, first ≤ t → t < last → (inputs t).request.getLsbD k = true)
    (passed : ∀ t, first ≤ t → t < last → (inputs t).incrementTopPriority = true →
      ((Clocked.run (step pipeline) inputs start t).grant (inputs t).request).getLsbD k =
        false) :
    ∃ place', (Clocked.run (step pipeline) inputs start last).Top place' ∧
      distance size place' k + Nat.count (fun t => (inputs t).incrementTopPriority) last ≤
        distance size place k + Nat.count (fun t => (inputs t).incrementTopPriority) first := by
  induction last, order using Nat.le_induction with
  | base => exact ⟨place, top, Nat.le_refl _⟩
  | succ last order inductionHypothesis =>
      obtain ⟨middle, reached, bound⟩ := inductionHypothesis
        (fun t begun before => asks t begun (Nat.lt_succ_of_lt before))
        (fun t begun before => passed t begun (Nat.lt_succ_of_lt before))
      obtain ⟨place', next, nearer⟩ := nearer_step (legal last) reached
        (asks last order (Nat.lt_succ_self last)) (passed last order (Nat.lt_succ_self last))
      refine ⟨place', next, ?_⟩
      rw [Nat.count_succ]
      omega

/-- In every run at most one requester is granted, and one whenever there is a request; and
while a requester keeps asking, the others are served less than `size` times before it. -/
theorem exclusive_and_fair (positive : 0 < size) (legal : ∀ t, Legal pipeline (inputs t)) :
    (∀ t, (inputs t).request = 0#(size) ∧
          (Clocked.run (step pipeline) inputs initial t).grant (inputs t).request = 0#(size) ∨
        ∃ i, (inputs t).request.getLsbD i = true ∧
          (Clocked.run (step pipeline) inputs initial t).grant (inputs t).request =
            BitVec.twoPow size i) ∧
      ∀ k first last, first ≤ last →
        (∀ t, first ≤ t → t < last → (inputs t).request.getLsbD k = true) →
        (∀ t, first ≤ t → t < last → (inputs t).incrementTopPriority = true →
          ((Clocked.run (step pipeline) inputs initial t).grant (inputs t).request).getLsbD k =
            false) →
        k < size →
          Nat.count (fun t => (inputs t).incrementTopPriority) last <
            Nat.count (fun t => (inputs t).incrementTopPriority) first + size := by
  constructor
  · intro t
    obtain ⟨place, top⟩ := top_run positive legal t
    by_cases idle : (inputs t).request = 0#(size)
    · exact Or.inl ⟨idle, by rw [idle, grant_zero top]⟩
    · obtain ⟨i, found⟩ := Arith.exists_firstAround idle place
      exact Or.inr ⟨i, found.1, grant_eq _ top found⟩
  · intro k first last order asks passed inside
    obtain ⟨place, top⟩ := top_run positive legal first
    obtain ⟨_, _, bound⟩ := nearer_run legal order top asks passed
    have near := Arith.distance_lt top.1 inside
    omega

/-- Two of three requesters, with a new arbitration in every cycle. -/
def lastTwoAsk : ArbitratorInput 3 where
  reset := false
  request := 0b110#3
  incrementTopPriority := true
  saveTopPriority := false

theorem exclusive_and_fair_lastTwoAsk :
    Nat.count (fun _ => lastTwoAsk.incrementTopPriority) 1 <
      Nat.count (fun _ => lastTwoAsk.incrementTopPriority) 0 + 3 := by
  have legal : ∀ t, Legal false ((fun _ => lastTwoAsk : Nat → ArbitratorInput 3) t) :=
    fun _ => ⟨rfl, fun _ _ _ => (by decide : 0b110#3 ≠ 0#3)⟩
  refine (exclusive_and_fair (by decide) legal).2 2 0 1 (by decide) (fun _ _ _ => rfl) ?_
    (by decide)
  intro t _ before _
  obtain rfl : t = 0 := by omega
  decide +kernel

end Run

end Arbitrator

end DigitalSystems.Soc
