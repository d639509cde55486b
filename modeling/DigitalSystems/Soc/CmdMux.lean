import DigitalSystems.Clocked.Queue
import DigitalSystems.Soc.Arbitrator
import Mathlib.Data.List.Chain

/-!
# The command multiplexer

`lab7_soc_mm_interconnect_0_cmd_mux` for any number of sinks: packets of several masters on
their way to one slave.  The grant is pipelined, so it only moves while the multiplexer is
idle or with the last beat of a packet, and a locked packet goes on in the next one.
-/

namespace DigitalSystems.Soc

open Clocked (Recurs emitted)

/-- Channel, data, start and end of packet, from the top down. -/
abbrev Payload := BitVec (17 + 108 + 2)

namespace Payload

def endofpacket (payload : Payload) : Bool := payload.getLsbD 0

/-- `data[68]`, the transaction lock. -/
def lock (payload : Payload) : Bool := payload.getLsbD (2 + 68)

/-- The last beat of its packet, or of the last packet under one lock. -/
def ends (payload : Payload) : Bool := payload.endofpacket && !payload.lock

end Payload

structure MuxInput (size : Nat) where
  reset : Bool
  sinkValid : BitVec size
  sinkPayload : Fin size → Payload
  srcReady : Bool

structure CmdMux (size : Nat) where
  savedGrant : BitVec size
  packetInProgress : Bool
  locked : BitVec size
  shareCount : BitVec 1
  shareCountZeroFlag : Bool
  arb : Arbitrator size

namespace CmdMux

variable {size : Nat}

def zero : CmdMux size where
  savedGrant := 0#(size)
  packetInProgress := false
  locked := 0#(size)
  shareCount := 0#1
  shareCountZeroFlag := true
  arb := Arbitrator.initial

/-- The bits of a signal with one wire for each sink. -/
def wires (bit : Fin size → Bool) : BitVec size :=
  (BitVec.iunfoldr (fun (i : Fin size) (_ : Unit) => ((), bit i)) ()).snd

theorem getLsbD_wires (bit : Fin size → Bool) (i : Fin size) :
    (wires bit).getLsbD i = bit i :=
  BitVec.iunfoldr_getLsbD (fun _ => ()) i fun _ => rfl

section Signals

variable (input : MuxInput size) (s : CmdMux size)

def lock : BitVec size := wires fun i => (input.sinkPayload i).lock

def srcValid : Bool := s.savedGrant &&& input.sinkValid != 0#(size)

/-- The sum of products over the sinks. -/
def srcPayload : Payload :=
  (List.finRange size).foldl
    (fun (sum : Payload) (i : Fin size) =>
      sum ||| (if s.savedGrant.getLsbD i then input.sinkPayload i else 0#(_))) 0#(_)

def sinkReady (i : Fin size) : Bool := input.srcReady && s.savedGrant.getLsbD i

def lastCycle : Bool :=
  s.srcValid input && input.srcReady && (s.srcPayload input).endofpacket &&
    !(lock input &&& s.savedGrant != 0#(size))

def request : BitVec size := input.sinkValid ||| s.locked

def nextGrant : BitVec size := s.arb.grant (s.request input)

/-- The arbitration shares of every sink: one packet, counted as zero. -/
def share : BitVec 1 := 0#1

def nextGrantShare : BitVec 1 :=
  (List.finRange size).foldl
    (fun (sum : BitVec 1) (i : Fin size) =>
      sum ||| (if (s.nextGrant input).getLsbD i then share else 0#1)) 0#1

def p1ShareCount : BitVec 1 := if s.shareCountZeroFlag then 0#1 else s.shareCount - 1#1

def updateGrant : Bool :=
  !s.packetInProgress && !s.srcValid input || s.lastCycle input && s.shareCountZeroFlag

def arbInput : ArbitratorInput size where
  reset := input.reset
  request := s.request input
  incrementTopPriority := s.updateGrant input
  saveTopPriority := s.srcValid input

def step : CmdMux size :=
  if input.reset then zero
  else
    { savedGrant := if s.updateGrant input then s.nextGrant input else s.savedGrant
      packetInProgress :=
        if s.lastCycle input then false
        else if s.srcValid input then true else s.packetInProgress
      locked := s.nextGrant input &&& lock input
      shareCount :=
        if s.updateGrant input then s.nextGrantShare input
        else if s.lastCycle input then s.p1ShareCount else s.shareCount
      shareCountZeroFlag :=
        if s.updateGrant input then s.nextGrantShare input == 0#1
        else if s.lastCycle input then s.p1ShareCount == 0#1 else s.shareCountZeroFlag
      arb := s.arb.step true (s.arbInput input) }

/-- What a sink hands over in this cycle. -/
def accepts (i : Fin size) : Option Payload :=
  if input.sinkValid.getLsbD i && s.sinkReady input i then some (input.sinkPayload i) else none

/-- What leaves the multiplexer in this cycle. -/
def emits : Option Payload :=
  if s.srcValid input && input.srcReady then some (s.srcPayload input) else none

/-- What leaves, with the sink that has the grant. -/
def emitsFrom : Option (Fin size × Payload) :=
  let sink := (List.finRange size).find? fun (i : Fin size) => s.savedGrant.getLsbD i
  sink.bind fun i => (s.emits input).map fun payload => (i, payload)

end Signals

/-- The grant is with nobody or with one sink, every share is used up by one packet, and a
packet in progress has the grant. -/
structure Valid (s : CmdMux size) : Prop where
  grant : s.savedGrant = 0#(size) ∨ ∃ i : Fin size, s.savedGrant = BitVec.twoPow size i
  shares : s.shareCountZeroFlag = true
  top : ∃ place, s.arb.Top place
  owned : s.packetInProgress = true → s.savedGrant ≠ 0#(size)

/-- A sum of products in which at most one product counts. -/
theorem foldl_or_single {width : Nat} {term : Fin size → BitVec width} {i : Fin size}
    (others : ∀ j, j ≠ i → term j = 0#(width)) (sinks : List (Fin size)) (start : BitVec width) :
    sinks.foldl (fun sum j => sum ||| term j) start =
      if i ∈ sinks then start ||| term i else start := by
  induction sinks generalizing start with
  | nil => rfl
  | cons j sinks inductionHypothesis =>
      rw [List.foldl_cons, inductionHypothesis]
      by_cases here : j = i
      · subst here
        simp [BitVec.or_assoc]
      · rw [others j here, BitVec.or_zero]
        simp [Ne.symm here]

theorem twoPow_and_ne_zero {word : BitVec size} {i : Nat} (inside : i < size) :
    (BitVec.twoPow size i &&& word != 0#(size)) = word.getLsbD i := by
  rw [BitVec.twoPow_and]
  have nonzero : BitVec.twoPow size i ≠ 0#(size) := by
    intro zero
    have bit := congrArg (fun bits => bits.getLsbD i) zero
    simp [inside] at bit
  cases word.getLsbD i <;> simp [nonzero]

section Grant

variable {input : MuxInput size} {s : CmdMux size} {i : Fin size}

theorem getLsbD_of_grant (grant : s.savedGrant = BitVec.twoPow size i) (j : Fin size) :
    s.savedGrant.getLsbD j = decide (i = j) := by
  rw [grant, Arbitrator.getLsbD_twoPow_of_lt j.isLt, decide_eq_decide]
  exact Fin.val_inj

theorem grant_unique (grant : s.savedGrant = BitVec.twoPow size i) {j : Fin size}
    (other : s.savedGrant = BitVec.twoPow size j) : i = j := by
  have bit := getLsbD_of_grant grant j
  rw [getLsbD_of_grant other, decide_eq_true rfl] at bit
  exact of_decide_eq_true bit.symm

theorem srcValid_of_grant (grant : s.savedGrant = BitVec.twoPow size i) :
    s.srcValid input = input.sinkValid.getLsbD i := by
  rw [srcValid, grant, twoPow_and_ne_zero i.isLt]

theorem srcPayload_of_grant (grant : s.savedGrant = BitVec.twoPow size i) :
    s.srcPayload input = input.sinkPayload i := by
  have others : ∀ j, j ≠ i →
      (if s.savedGrant.getLsbD j then input.sinkPayload j else 0#(_)) = 0#(_) := by
    intro j other
    rw [getLsbD_of_grant grant, decide_eq_false (Ne.symm other), if_neg Bool.false_ne_true]
  rw [srcPayload, foldl_or_single others, if_pos (List.mem_finRange i), BitVec.zero_or,
    getLsbD_of_grant grant, decide_eq_true rfl, if_pos rfl]

theorem lock_of_grant (grant : s.savedGrant = BitVec.twoPow size i) :
    (lock input &&& s.savedGrant != 0#(size)) = (input.sinkPayload i).lock := by
  rw [grant, BitVec.and_comm, twoPow_and_ne_zero i.isLt, lock, getLsbD_wires]

theorem lastCycle_of_grant (grant : s.savedGrant = BitVec.twoPow size i) :
    s.lastCycle input =
      (input.sinkValid.getLsbD i && input.srcReady && (input.sinkPayload i).ends) := by
  rw [lastCycle, srcValid_of_grant grant, srcPayload_of_grant grant, lock_of_grant grant,
    Bool.and_assoc, Payload.ends]

theorem srcValid_of_none (none : s.savedGrant = 0#(size)) : s.srcValid input = false := by
  rw [srcValid, none, BitVec.zero_and, bne_self_eq_false]

theorem nextGrantShare_eq : s.nextGrantShare input = 0#1 := by
  rw [nextGrantShare]
  induction List.finRange size with
  | nil => rfl
  | cons j sinks inductionHypothesis =>
      rw [List.foldl_cons, share, ite_self, BitVec.or_zero]
      exact inductionHypothesis

theorem emits_of_grant (grant : s.savedGrant = BitVec.twoPow size i) :
    s.emits input =
      if input.sinkValid.getLsbD i && input.srcReady then some (input.sinkPayload i)
      else none := by
  rw [emits, srcValid_of_grant grant, srcPayload_of_grant grant]

theorem emitsFrom_of_grant (grant : s.savedGrant = BitVec.twoPow size i) :
    s.emitsFrom input = (s.emits input).map fun payload => (i, payload) := by
  have found :
      ((List.finRange size).find? fun (j : Fin size) => s.savedGrant.getLsbD j) = some i := by
    cases found : (List.finRange size).find? fun (j : Fin size) => s.savedGrant.getLsbD j with
    | none =>
        have missed := List.find?_eq_none.mp found i (List.mem_finRange i)
        rw [getLsbD_of_grant grant, decide_eq_true rfl] at missed
        exact absurd rfl missed
    | some j =>
        have granted := List.find?_some found
        rw [getLsbD_of_grant grant, decide_eq_true_iff] at granted
        rw [granted]
  rw [emitsFrom, found]
  rfl

theorem accepts_of_grant (grant : s.savedGrant = BitVec.twoPow size i) (j : Fin size) :
    s.accepts input j = if i = j then s.emits input else none := by
  rw [accepts, sinkReady, getLsbD_of_grant grant, emits_of_grant grant]
  by_cases same : i = j
  · subst same
    simp
  · simp [same]

theorem emits_of_none (none : s.savedGrant = 0#(size)) : s.emits input = .none := by
  rw [emits, srcValid_of_none none]
  rfl

theorem emitsFrom_of_none (none : s.savedGrant = 0#(size)) : s.emitsFrom input = .none := by
  rw [emitsFrom, emits_of_none none]
  simp

theorem accepts_of_none (none : s.savedGrant = 0#(size)) (j : Fin size) :
    s.accepts input j = .none := by
  rw [accepts, sinkReady, none, BitVec.getLsbD_zero, Bool.and_false, Bool.and_false]
  rfl

end Grant

section Step

variable {input : MuxInput size} {s : CmdMux size}

theorem legal_arbInput (reset : input.reset = false) :
    Arbitrator.Legal true (s.arbInput input) :=
  ⟨reset, nofun⟩

theorem grant_cases (valid : Valid s) :
    s.nextGrant input = 0#(size) ∨ ∃ i : Fin size, s.nextGrant input = BitVec.twoPow size i := by
  obtain ⟨place, top⟩ := valid.top
  by_cases idle : s.request input = 0#(size)
  · exact Or.inl (by rw [nextGrant, idle, Arbitrator.grant_zero top])
  · obtain ⟨i, first⟩ := Arith.exists_firstAround idle place
    exact Or.inr ⟨⟨i, first.lt⟩, Arbitrator.grant_eq _ top first⟩

/-- A sink that offers a beat or has begun a packet keeps the grant until the packet ends. -/
theorem step_of_owned (reset : input.reset = false)
    (owned : s.packetInProgress = true ∨ s.srcValid input = true)
    (goes : s.lastCycle input = false) :
    (s.step input).savedGrant = s.savedGrant ∧ (s.step input).packetInProgress = true := by
  have keeps : s.updateGrant input = false := by
    rw [updateGrant, goes]
    rcases owned with progress | offered
    · rw [progress]
      rfl
    · rw [offered, Bool.not_true, Bool.and_false]
      rfl
  rw [step, reset, if_neg Bool.false_ne_true]
  refine ⟨by rw [keeps]; rfl, ?_⟩
  rw [goes]
  rcases owned with progress | offered
  · cases offered : s.srcValid input <;> simp [progress]
  · simp [offered]

theorem owned_of_progress (reset : input.reset = false)
    (progress : (s.step input).packetInProgress = true) :
    s.lastCycle input = false ∧ (s.packetInProgress = true ∨ s.srcValid input = true) := by
  rw [step, reset, if_neg Bool.false_ne_true] at progress
  cases goes : s.lastCycle input <;> cases offered : s.srcValid input <;>
    simp [goes, offered] at progress ⊢
  exact progress

theorem step_of_update (reset : input.reset = false) (update : s.updateGrant input = true) :
    (s.step input).savedGrant = s.nextGrant input := by
  rw [step, reset, if_neg Bool.false_ne_true, update]
  rfl

theorem updateGrant_of_last (valid : Valid s) (last : s.lastCycle input = true) :
    s.updateGrant input = true := by
  rw [updateGrant, last, valid.shares]
  simp

theorem grant_of_getLsbD (valid : Valid s) {i : Fin size}
    (granted : s.savedGrant.getLsbD i = true) : s.savedGrant = BitVec.twoPow size i := by
  rcases valid.grant with none | ⟨j, grant⟩
  · rw [none, BitVec.getLsbD_zero] at granted
    exact absurd granted nofun
  · rw [getLsbD_of_grant grant, decide_eq_true_iff] at granted
    rw [grant, granted]

theorem valid_step (valid : Valid s) (reset : input.reset = false) : Valid (s.step input) := by
  obtain ⟨place, top⟩ := valid.top
  have next := Arbitrator.top_step (legal_arbInput (s := s) reset) top
  refine ⟨?_, ?_, ?_, ?_⟩
  · rw [step, reset, if_neg Bool.false_ne_true]
    cases s.updateGrant input
    · exact valid.grant
    · exact grant_cases valid
  · rw [step, reset, if_neg Bool.false_ne_true, nextGrantShare_eq, p1ShareCount, valid.shares]
    simp
  · rw [step, reset, if_neg Bool.false_ne_true]
    exact next
  · intro progress none
    obtain ⟨goes, owned⟩ := owned_of_progress reset progress
    rw [(step_of_owned reset owned goes).1] at none
    rcases owned with begun | offered
    · exact valid.owned begun none
    · rw [srcValid_of_none none] at offered
      exact absurd offered nofun

/-- What leaves is from the sink with the grant, which keeps it up to the last beat. -/
theorem step_of_emits (valid : Valid s) (reset : input.reset = false) {i : Fin size}
    {payload : Payload} (leaves : s.emitsFrom input = some (i, payload)) :
    s.savedGrant = BitVec.twoPow size i ∧ (payload.ends = false →
      (s.step input).savedGrant = BitVec.twoPow size i ∧
        (s.step input).packetInProgress = true) := by
  rcases valid.grant with none | ⟨j, grant⟩
  · rw [emitsFrom_of_none none] at leaves
    exact absurd leaves nofun
  · rw [emitsFrom_of_grant grant, emits_of_grant grant] at leaves
    split_ifs at leaves with offered
    · obtain ⟨rfl, rfl⟩ : j = i ∧ input.sinkPayload j = payload := by simpa using leaves
      refine ⟨grant, fun more => ?_⟩
      have goes : s.lastCycle input = false := by
        rw [lastCycle_of_grant grant, more, Bool.and_false]
      have given : s.srcValid input = true := by
        rw [srcValid_of_grant grant]
        exact ((Bool.and_eq_true _ _).mp offered).1
      obtain ⟨keeps, progress⟩ := step_of_owned reset (Or.inr given) goes
      exact ⟨keeps.trans grant, progress⟩
    · exact absurd leaves nofun

theorem step_of_quiet (reset : input.reset = false) (progress : s.packetInProgress = true)
    (quiet : s.emits input = none) :
    (s.step input).savedGrant = s.savedGrant ∧ (s.step input).packetInProgress = true := by
  apply step_of_owned reset (Or.inl progress)
  rw [emits] at quiet
  split_ifs at quiet with leaves
  rw [lastCycle, Bool.eq_false_iff.mpr leaves]
  rfl

theorem map_emitsFrom (valid : Valid s) : (s.emitsFrom input).map Prod.snd = s.emits input := by
  rcases valid.grant with none | ⟨i, grant⟩
  · rw [emitsFrom_of_none none, emits_of_none none]
    rfl
  · rw [emitsFrom_of_grant grant, Option.map_map]
    exact Option.map_id'

theorem filter_emitsFrom (valid : Valid s) (i : Fin size) :
    ((s.emitsFrom input).filter fun beat => beat.1 = i).map Prod.snd = s.accepts input i := by
  rcases valid.grant with none | ⟨j, grant⟩
  · rw [emitsFrom_of_none none, accepts_of_none none]
    rfl
  · rw [emitsFrom_of_grant grant, accepts_of_grant grant]
    cases s.emits input with
    | none => simp
    | some payload => by_cases same : j = i <;> simp [Option.filter, same]

end Step

section Run

variable (inputs : Nat → MuxInput size)

/-- The multiplexer `n` cycles after a reset. -/
def after (n : Nat) : CmdMux size := Clocked.run step inputs zero n

/-- Everything that has left in `n` cycles, with the sinks it is from. -/
def leaving (n : Nat) : List (Fin size × Payload) :=
  emitted (fun t => (after inputs t).emitsFrom (inputs t)) n

variable {inputs}

theorem valid_after (positive : 0 < size) (released : ∀ t, (inputs t).reset = false) (n : Nat) :
    Valid (after inputs n) := by
  apply Clocked.run_invariant Valid
  · exact ⟨Or.inl rfl, rfl, ⟨0, positive, BitVec.twoPow_zero.symm⟩, nofun⟩
  · exact fun t s valid => valid_step valid (released t)

/-- The arbitrator inside runs by itself. -/
theorem arb_after (released : ∀ t, (inputs t).reset = false) (n : Nat) :
    (after inputs n).arb =
      Clocked.run (Arbitrator.step true) (fun t => (after inputs t).arbInput (inputs t))
        Arbitrator.initial n := by
  induction n with
  | zero => rfl
  | succ n inductionHypothesis =>
      rw [Clocked.run_succ, ← inductionHypothesis]
      change ((after inputs n).step (inputs n)).arb = _
      rw [step, released n, if_neg Bool.false_ne_true]

/-- After a beat that is not the last one the grant stays, and the next one is from there. -/
theorem leaving_unbroken (positive : 0 < size) (released : ∀ t, (inputs t).reset = false)
    (n : Nat) :
    (leaving inputs n).IsChain (fun first next => first.2.ends = false → next.1 = first.1) ∧
      ∀ beat ∈ (leaving inputs n).getLast?, beat.2.ends = false →
        (after inputs n).savedGrant = BitVec.twoPow size beat.1 ∧
          (after inputs n).packetInProgress = true := by
  induction n with
  | zero => exact ⟨.nil, nofun⟩
  | succ n inductionHypothesis =>
      obtain ⟨chain, owned⟩ := inductionHypothesis
      have valid := valid_after positive released n
      have next : after inputs (n + 1) = (after inputs n).step (inputs n) := rfl
      rw [leaving, emitted, next]
      change (leaving inputs n ++ _).IsChain _ ∧ ∀ beat ∈ (leaving inputs n ++ _).getLast?, _
      cases leaves : (after inputs n).emitsFrom (inputs n) with
      | none =>
          rw [Option.toList_none, List.append_nil]
          refine ⟨chain, fun beat last more => ?_⟩
          obtain ⟨grant, progress⟩ := owned beat last more
          have quiet : (after inputs n).emits (inputs n) = none := by
            rw [← map_emitsFrom valid, leaves]
            rfl
          obtain ⟨keeps, progress'⟩ := step_of_quiet (released n) progress quiet
          exact ⟨keeps.trans grant, progress'⟩
      | some beat =>
          obtain ⟨grant, keeps⟩ := step_of_emits valid (released n) leaves
          rw [Option.toList_some]
          refine ⟨chain.append (.singleton _) ?_, ?_⟩
          · rintro before last _ ⟨⟩ more
            exact grant_unique grant (owned before last more).1
          · rw [List.getLast?_concat]
            rintro _ ⟨⟩ more
            exact keeps more

/-- What leaves is what the sinks hand over, each sink's beats in their order, and no packet
is interrupted by another sink. -/
theorem packets_whole (positive : 0 < size) (released : ∀ t, (inputs t).reset = false)
    (n : Nat) :
    (leaving inputs n).map Prod.snd =
        emitted (fun t => (after inputs t).emits (inputs t)) n ∧
      (∀ i, ((leaving inputs n).filter fun beat => beat.1 = i).map Prod.snd =
        emitted (fun t => (after inputs t).accepts (inputs t) i) n) ∧
      (leaving inputs n).IsChain
        (fun first next => first.2.ends = false → next.1 = first.1) := by
  have valid := valid_after positive released
  refine ⟨?_, fun i => ?_, (leaving_unbroken positive released n).1⟩
  · rw [leaving, Clocked.map_emitted]
    congr 1
    funext t
    exact map_emitsFrom (valid t)
  · rw [leaving, Clocked.filter_emitted, Clocked.map_emitted]
    congr 1
    funext t
    exact filter_emitsFrom (valid t) i

/-- Two masters that offer packets of two beats, the first of every two packets locked. -/
def lockedPackets (t : Nat) : MuxInput 2 where
  reset := false
  sinkValid := 0b11#2
  sinkPayload _ :=
    (if t % 4 < 2 then BitVec.twoPow _ (2 + 68) else 0#(_)) ||| BitVec.ofNat _ (t % 2)
  srcReady := true

theorem packets_whole_lockedPackets :
    (leaving lockedPackets 9).map Prod.snd =
        emitted (fun t => (after lockedPackets t).emits (lockedPackets t)) 9 ∧
      (∀ i, ((leaving lockedPackets 9).filter fun beat => beat.1 = i).map Prod.snd =
        emitted (fun t => (after lockedPackets t).accepts (lockedPackets t) i) 9) ∧
      (leaving lockedPackets 9).IsChain
        (fun first next => first.2.ends = false → next.1 = first.1) :=
  packets_whole (by decide) (fun _ => rfl) 9

/-- What the masters and the slave owe the multiplexer: an offer stands until it is accepted,
the slave is ready again and again, and a sink that has begun a packet goes on with it and
comes to its end. -/
structure Traffic (inputs : Nat → MuxInput size) : Prop where
  released : ∀ t, (inputs t).reset = false
  stands : ∀ t (i : Fin size), (inputs t).sinkValid.getLsbD i = true →
    (after inputs t).accepts (inputs t) i = none →
    (inputs (t + 1)).sinkValid.getLsbD i = true
  ready : Recurs fun t => (inputs t).srcReady = true
  continues : ∀ t (i : Fin size) payload,
    (after inputs t).accepts (inputs t) i = some payload → payload.ends = false →
    ∃ u, t < u ∧ (inputs u).sinkValid.getLsbD i = true
  finishes : ∀ i, (Recurs fun t => (after inputs t).accepts (inputs t) i ≠ none) →
    Recurs fun t => ∃ payload,
      (after inputs t).accepts (inputs t) i = some payload ∧ payload.ends = true

section Served

variable (traffic : Traffic inputs) {t : Nat} {i : Fin size}

include traffic

/-- With the grant, an offer is accepted as soon as the slave is ready. -/
theorem accepted_of_granted (grant : (after inputs t).savedGrant = BitVec.twoPow size i)
    (offers : (inputs t).sinkValid.getLsbD i = true) :
    ∃ u, t ≤ u ∧ (after inputs u).accepts (inputs u) i ≠ none ∧
      ∀ v, t ≤ v → v < u → (after inputs v).lastCycle (inputs v) = false := by
  obtain ⟨u, begun, ready, early⟩ := traffic.ready.exists_first t
  have stall : ∀ v, t ≤ v → v < u → ∀ {j : Fin size},
      (after inputs v).savedGrant = BitVec.twoPow size j →
      (after inputs v).emits (inputs v) = none ∧
        (after inputs v).lastCycle (inputs v) = false := by
    intro v after' before j held
    have stalled := Bool.eq_false_iff.mpr (early v after' before)
    rw [emits_of_grant held, lastCycle_of_grant held, stalled, Bool.and_false]
    exact ⟨rfl, rfl⟩
  have keeps : ∀ v, t ≤ v → v ≤ u →
      (after inputs v).savedGrant = BitVec.twoPow size i ∧
        (inputs v).sinkValid.getLsbD i = true := by
    intro v order
    induction v, order using Nat.le_induction with
    | base => exact fun _ => ⟨grant, offers⟩
    | succ v order inductionHypothesis =>
        intro bound
        obtain ⟨held, offered⟩ := inductionHypothesis (Nat.le_of_succ_le bound)
        obtain ⟨quiet, goes⟩ := stall v order bound held
        have given : (after inputs v).srcValid (inputs v) = true :=
          (srcValid_of_grant held).trans offered
        refine ⟨(step_of_owned (traffic.released v) (Or.inr given) goes).1.trans held, ?_⟩
        apply traffic.stands v i offered
        rw [accepts_of_grant held, if_pos rfl, quiet]
  refine ⟨u, begun, ?_, fun v order before => ?_⟩
  · obtain ⟨held, offered⟩ := keeps u begun (Nat.le_refl u)
    rw [accepts_of_grant held, if_pos rfl, emits_of_grant held, offered, ready]
    exact nofun
  · exact (stall v order before (keeps v order (Nat.le_of_lt before)).1).2

/-- A packet in progress goes on: its sink offers a beat, now or later. -/
theorem offers_of_progress (progress : (after inputs t).packetInProgress = true)
    (grant : (after inputs t).savedGrant = BitVec.twoPow size i) :
    ∃ u, t ≤ u ∧ (inputs u).sinkValid.getLsbD i = true := by
  induction t with
  | zero => exact absurd progress nofun
  | succ t inductionHypothesis =>
      obtain ⟨goes, owned⟩ :=
        owned_of_progress (s := after inputs t) (traffic.released t) progress
      have held : (after inputs t).savedGrant = BitVec.twoPow size i :=
        (step_of_owned (traffic.released t) owned goes).1.symm.trans grant
      by_cases offered : (inputs t).sinkValid.getLsbD i = true
      · cases accepted : (after inputs t).accepts (inputs t) i with
        | none => exact ⟨t + 1, Nat.le_refl _, traffic.stands t i offered accepted⟩
        | some payload =>
            apply traffic.continues t i payload accepted
            rw [accepts_of_grant held, if_pos rfl, emits_of_grant held] at accepted
            split_ifs at accepted with leaves
            rw [lastCycle_of_grant held, leaves, Bool.true_and] at goes
            rw [← Option.some.inj accepted]
            exact goes
      · have begun : (after inputs t).packetInProgress = true := by
          rcases owned with begun | given
          · exact begun
          · rw [srcValid_of_grant held] at given
            exact absurd given offered
        obtain ⟨u, later, offers⟩ := inductionHypothesis begun held
        have apart : u ≠ t := fun same => offered (same ▸ offers)
        exact ⟨u, by omega, offers⟩

/-- Whatever has begun ends. -/
theorem packet_ends (positive : 0 < size)
    (owned : (after inputs t).packetInProgress = true ∨
      (after inputs t).srcValid (inputs t) = true) :
    ∃ u, t ≤ u ∧ (after inputs u).lastCycle (inputs u) = true := by
  have valid := valid_after positive traffic.released
  by_contra never
  have goes : ∀ u, t ≤ u → (after inputs u).lastCycle (inputs u) = false :=
    fun u order => Bool.eq_false_iff.mpr fun last => never ⟨u, order, last⟩
  obtain ⟨i, grant⟩ : ∃ i : Fin size, (after inputs t).savedGrant = BitVec.twoPow size i := by
    rcases (valid t).grant with none | granted
    · rcases owned with progress | offered
      · exact absurd none ((valid t).owned progress)
      · rw [srcValid_of_none none] at offered
        exact absurd offered nofun
    · exact granted
  -- Without a last cycle the grant never moves.
  have stays : ∀ u, t + 1 ≤ u → (after inputs u).savedGrant = BitVec.twoPow size i ∧
      (after inputs u).packetInProgress = true := by
    intro u order
    induction u, order using Nat.le_induction with
    | base =>
        obtain ⟨keeps, progress⟩ :=
          step_of_owned (traffic.released t) owned (goes t (Nat.le_refl t))
        exact ⟨keeps.trans grant, progress⟩
    | succ u order inductionHypothesis =>
        obtain ⟨held, begun⟩ := inductionHypothesis
        obtain ⟨keeps, progress⟩ :=
          step_of_owned (traffic.released u) (Or.inl begun) (goes u (by omega))
        exact ⟨keeps.trans held, progress⟩
  have accepts : Recurs fun u => (after inputs u).accepts (inputs u) i ≠ none := by
    intro u
    obtain ⟨held, begun⟩ := stays (max u (t + 1)) (Nat.le_max_right _ _)
    obtain ⟨v, order, offers⟩ := offers_of_progress traffic begun held
    obtain ⟨w, later, accepted, -⟩ :=
      accepted_of_granted traffic (stays v (by omega)).1 offers
    exact ⟨w, by omega, accepted⟩
  obtain ⟨u, order, payload, accepted, last⟩ := traffic.finishes i accepts (t + 1)
  have held := (stays u order).1
  rw [accepts_of_grant held, if_pos rfl, emits_of_grant held] at accepted
  split_ifs at accepted with leaves
  have ended := goes u (Nat.le_of_succ_le order)
  rw [lastCycle_of_grant held, leaves, Option.some.inj accepted, last] at ended
  exact absurd ended nofun

theorem updates_recur (positive : 0 < size) :
    Recurs fun t => (after inputs t).updateGrant (inputs t) = true := by
  intro t
  by_cases owned : (after inputs t).packetInProgress = true ∨
      (after inputs t).srcValid (inputs t) = true
  · obtain ⟨u, order, last⟩ := packet_ends traffic positive owned
    refine ⟨u, order, ?_⟩
    exact updateGrant_of_last (valid_after positive traffic.released u) last
  · rw [not_or, Bool.not_eq_true, Bool.not_eq_true] at owned
    refine ⟨t, Nat.le_refl t, ?_⟩
    simp [updateGrant, owned]

/-- A sink that asks while `size` grants are made gets one of them. -/
theorem granted_in_turn (positive : 0 < size) {last : Nat} (order : t ≤ last)
    (asks : ∀ u, t ≤ u → u < last → (inputs u).sinkValid.getLsbD i = true)
    (turns : Nat.count (fun u => (after inputs u).updateGrant (inputs u) = true) last =
      Nat.count (fun u => (after inputs u).updateGrant (inputs u) = true) t + size) :
    ∃ u, t ≤ u ∧ u < last ∧ (after inputs (u + 1)).savedGrant = BitVec.twoPow size i := by
  by_contra never
  have legal : ∀ u, Arbitrator.Legal true ((after inputs u).arbInput (inputs u)) :=
    fun u => legal_arbInput (traffic.released u)
  obtain ⟨place, top⟩ := Arbitrator.top_run positive legal t
  have passed : ∀ u, t ≤ u → u < last →
      ((after inputs u).arbInput (inputs u)).incrementTopPriority = true →
      ((Clocked.run (Arbitrator.step true) (fun u => (after inputs u).arbInput (inputs u))
        Arbitrator.initial u).grant ((after inputs u).arbInput (inputs u)).request).getLsbD i =
          false := by
    intro u begun before update
    rw [Bool.eq_false_iff, ← arb_after traffic.released]
    intro granted
    apply never
    refine ⟨u, begun, before, ?_⟩
    apply grant_of_getLsbD (valid_after positive traffic.released (u + 1))
    have moves : (after inputs (u + 1)).savedGrant = (after inputs u).nextGrant (inputs u) :=
      step_of_update (traffic.released u) update
    rw [moves]
    exact granted
  have requests : ∀ u, t ≤ u → u < last →
      ((after inputs u).arbInput (inputs u)).request.getLsbD i = true := by
    intro u begun before
    rw [arbInput, request, BitVec.getLsbD_or, asks u begun before]
    rfl
  obtain ⟨place', -, nearer⟩ := Arbitrator.nearer_run legal order top requests passed
  have bound := Arith.distance_lt top.1 i.isLt
  have counted : Nat.count
      (fun u => ((after inputs u).arbInput (inputs u)).incrementTopPriority = true) last =
      Nat.count
        (fun u => ((after inputs u).arbInput (inputs u)).incrementTopPriority = true) t + size :=
    turns
  omega

/-- No sink starves: an offer is accepted before more than `size` packets have ended. -/
theorem every_offer_accepted (positive : 0 < size)
    (offers : (inputs t).sinkValid.getLsbD i = true) :
    ∃ u, t ≤ u ∧ (after inputs u).accepts (inputs u) i ≠ none ∧
      Nat.count (fun v => (after inputs v).lastCycle (inputs v) = true) u ≤
        Nat.count (fun v => (after inputs v).lastCycle (inputs v) = true) t + size := by
  have valid := valid_after positive traffic.released
  obtain ⟨last, order, turns⟩ := (updates_recur traffic positive).exists_count t size
  have fewer : ∀ u, t ≤ u → u ≤ last →
      Nat.count (fun v => (after inputs v).lastCycle (inputs v) = true) u ≤
        Nat.count (fun v => (after inputs v).lastCycle (inputs v) = true) t + size := by
    intro u begun bound
    have ends := Clocked.count_le_of_imp begun fun v _ _ =>
      @updateGrant_of_last _ (inputs v) _ (valid v)
    have grows := Nat.count_monotone
      (fun v => (after inputs v).updateGrant (inputs v) = true) bound
    omega
  by_cases early : ∃ u, t ≤ u ∧ u < last ∧ (after inputs u).accepts (inputs u) i ≠ none
  · obtain ⟨u, begun, before, accepted⟩ := early
    exact ⟨u, begun, accepted, fewer u begun (Nat.le_of_lt before)⟩
  · have asks : ∀ u, t ≤ u → u ≤ last → (inputs u).sinkValid.getLsbD i = true := by
      intro u begun
      induction u, begun using Nat.le_induction with
      | base => exact fun _ => offers
      | succ u begun inductionHypothesis =>
          intro bound
          apply traffic.stands u i (inductionHypothesis (Nat.le_of_succ_le bound))
          by_contra accepted
          exact early ⟨u, begun, bound, accepted⟩
    obtain ⟨v, begun, before, grant⟩ := granted_in_turn traffic positive order
      (fun u begun before => asks u begun (Nat.le_of_lt before)) turns
    obtain ⟨u, later, accepted, quiet⟩ := accepted_of_granted traffic grant
      (asks (v + 1) (by omega) before)
    refine ⟨u, by omega, accepted, ?_⟩
    rw [Clocked.count_of_quiet later fun w after' before' =>
      Bool.eq_false_iff.mp (quiet w after' before')]
    exact fewer (v + 1) (by omega) before

end Served

/-- Two masters that always offer packets of one beat. -/
def twoMasters (_ : Nat) : MuxInput 2 where
  reset := false
  sinkValid := 0b11#2
  sinkPayload _ := 1#(17 + 108 + 2)
  srcReady := true

theorem twoMasters_offers (t : Nat) : ∀ i : Fin 2, (twoMasters t).sinkValid.getLsbD i = true := by
  change ∀ i : Fin 2, (0b11#2).getLsbD i = true
  decide

theorem traffic_twoMasters : Traffic twoMasters where
  released _ := rfl
  stands t i _ _ := twoMasters_offers (t + 1) i
  ready t := ⟨t, Nat.le_refl t, rfl⟩
  continues t i _ _ _ := ⟨t + 1, Nat.lt_succ_self t, twoMasters_offers (t + 1) i⟩
  finishes i recurs t := by
    obtain ⟨u, order, accepted⟩ := recurs t
    refine ⟨u, order, 1#(17 + 108 + 2), ?_, by decide⟩
    rw [accepts] at accepted ⊢
    split_ifs at accepted ⊢
    · rfl
    · exact absurd rfl accepted

theorem every_offer_accepted_twoMasters :
    ∃ u, 3 ≤ u ∧ (after twoMasters u).accepts (twoMasters u) 1 ≠ none ∧
      Nat.count (fun v => (after twoMasters v).lastCycle (twoMasters v) = true) u ≤
        Nat.count (fun v => (after twoMasters v).lastCycle (twoMasters v) = true) 3 + 2 :=
  every_offer_accepted traffic_twoMasters (by decide) (twoMasters_offers 3 1)

end Run

end CmdMux

end DigitalSystems.Soc
