import DigitalSystems.Clocked.Run
import Mathlib.Data.List.Forall2
import Mathlib.Data.List.Induction
import Mathlib.Data.Nat.Init

/-!
# The latest event of a history

`latest? select history` is the value carried by the last entry of `history`
that `select` accepts.  It is the specification side of every store in this
development: a location holds the latest value written to it.
-/

namespace DigitalSystems.Clocked

universe u v w

variable {Entry : Type u} {Value : Type v} {State : Type w}

/-- Value of the last accepted entry, oldest entry first. -/
def latest? (select : Entry → Option Value) (history : List Entry) : Option Value :=
  (history.filterMap select).getLast?

@[simp]
theorem latest?_nil (select : Entry → Option Value) : latest? select [] = none := rfl

theorem latest?_append (select : Entry → Option Value) (earlier later : List Entry) :
    latest? select (earlier ++ later) =
      (latest? select later).or (latest? select earlier) := by
  simp [latest?, List.getLast?_append]

@[simp]
theorem latest?_singleton (select : Entry → Option Value) (entry : Entry) :
    latest? select [entry] = select entry := by
  cases selected : select entry <;> simp [latest?, selected]

@[simp]
theorem latest?_concat (select : Entry → Option Value) (history : List Entry)
    (entry : Entry) :
    latest? select (history ++ [entry]) =
      (select entry).or (latest? select history) := by
  rw [latest?_append, latest?_singleton]

@[simp]
theorem latest?_cons (select : Entry → Option Value) (entry : Entry)
    (history : List Entry) :
    latest? select (entry :: history) =
      (latest? select history).or (select entry) := by
  rw [← List.singleton_append, latest?_append, latest?_singleton]

theorem latest?_flatMap {Group : Type u} (select : Entry → Option Value)
    (entries : Group → List Entry) (groups : List Group) :
    latest? select (groups.flatMap entries) =
      latest? (fun group => latest? select (entries group)) groups := by
  induction groups with
  | nil => rfl
  | cons group groups inductionHypothesis =>
      rw [List.flatMap_cons, latest?_append, latest?_cons, inductionHypothesis]

theorem latest?_congr {select select' : Entry → Option Value} {history : List Entry}
    (agree : ∀ entry ∈ history, select entry = select' entry) :
    latest? select history = latest? select' history := by
  rw [latest?, List.filterMap_congr agree, latest?]

theorem latest?_map {Image : Type u} (image : Value → Image)
    (select : Entry → Option Value) (history : List Entry) :
    latest? (fun entry => (select entry).map image) history =
      (latest? select history).map image := by
  rw [latest?, latest?, ← List.getLast?_map, List.map_filterMap]

theorem latest?_eq_none_iff {select : Entry → Option Value} {history : List Entry} :
    latest? select history = none ↔ ∀ entry ∈ history, select entry = none := by
  rw [latest?, List.getLast?_eq_none_iff, List.filterMap_eq_nil_iff]

theorem exists_of_latest? {select : Entry → Option Value} {history : List Entry}
    {value : Value} (latest : latest? select history = some value) :
    ∃ entry ∈ history, select entry = some value :=
  List.mem_filterMap.mp (List.mem_of_getLast? latest)

theorem latest?_filter (select : Entry → Option Value) (keep : Entry → Bool)
    (dropped : ∀ entry, keep entry = false → select entry = none)
    (history : List Entry) :
    latest? select (history.filter keep) = latest? select history := by
  induction history with
  | nil => rfl
  | cons entry history inductionHypothesis =>
      cases kept : keep entry with
      | true => simp [kept, inductionHypothesis]
      | false => simp [kept, inductionHypothesis, dropped entry kept]

/-- Two histories whose entries correspond have the same latest value. -/
theorem latest?_eq_of_forall₂ {Other : Type w} {Corresponds : Entry → Other → Prop}
    {select : Entry → Option Value} {select' : Other → Option Value}
    (agree : ∀ entry other, Corresponds entry other → select entry = select' other)
    {history : List Entry} {others : List Other}
    (aligned : List.Forall₂ Corresponds history others) :
    latest? select history = latest? select' others := by
  induction aligned with
  | nil => rfl
  | cons corresponds _ inductionHypothesis =>
      rw [latest?_cons, latest?_cons, inductionHypothesis, agree _ _ corresponds]

/-- Last writer wins: if every step overwrites the observed location exactly
when `select` accepts the entry, then after any history the location holds the
latest accepted value, or its initial content. -/
theorem observe_foldl_eq_latest (step : State → Entry → State) (observe : State → Value)
    (select : Entry → Option Value)
    (overwrites : ∀ state entry,
      observe (step state entry) = (select entry).getD (observe state))
    (history : List Entry) (start : State) :
    observe (history.foldl step start) =
      (latest? select history).getD (observe start) := by
  induction history using List.reverseRecOn with
  | nil => rfl
  | append_singleton history entry inductionHypothesis =>
      rw [List.foldl_append, List.foldl_cons, List.foldl_nil, overwrites,
        latest?_concat, inductionHypothesis]
      cases select entry <;> rfl

/-- The latest event among cycles `0 .. n - 1`, where cycle `t` carries the
event `event t`. -/
def latestBefore? (event : Nat → Option Value) (n : Nat) : Option Value :=
  latest? event (List.range n)

@[simp]
theorem latestBefore?_zero (event : Nat → Option Value) :
    latestBefore? event 0 = none := rfl

theorem latestBefore?_succ (event : Nat → Option Value) (n : Nat) :
    latestBefore? event (n + 1) = (event n).or (latestBefore? event n) := by
  rw [latestBefore?, List.range_succ, latest?_concat, latestBefore?]

theorem latestBefore?_of_quiet {event : Nat → Option Value} {first n : Nat}
    (order : first ≤ n) (quiet : ∀ t, first ≤ t → t < n → event t = none) :
    latestBefore? event n = latestBefore? event first := by
  induction n, order using Nat.le_induction with
  | base => rfl
  | succ n order inductionHypothesis =>
      rw [latestBefore?_succ, quiet n order (Nat.lt_succ_self n), Option.none_or]
      exact inductionHypothesis fun t begun before =>
        quiet t begun (Nat.lt_succ_of_lt before)

theorem latestBefore?_of_single {event : Nat → Option Value} {first time n : Nat}
    (begun : first ≤ time) (before : time < n)
    (quiet : ∀ t, first ≤ t → t < n → t ≠ time → event t = none) :
    latestBefore? event n = (event time).or (latestBefore? event first) := by
  have after : latestBefore? event n = latestBefore? event (time + 1) :=
    latestBefore?_of_quiet before fun t above below => quiet t (by omega) below (by omega)
  have earlier : latestBefore? event time = latestBefore? event first :=
    latestBefore?_of_quiet begun fun t above below => quiet t above (by omega) (by omega)
  rw [after, latestBefore?_succ, earlier]

/-- Last writer wins along a run: if every edge overwrites the observed location when
its event carries a value and keeps it otherwise, the location holds the latest value. -/
theorem observe_run_eq_latest {Input : Type u} (step : Input → State → State)
    (inputs : Nat → Input) (observe : State → Value) (event : Nat → Option Value)
    (start : State) (n : Nat)
    (overwrites : ∀ t, t < n →
      observe (run step inputs start (t + 1)) =
        (event t).getD (observe (run step inputs start t))) :
    observe (run step inputs start n) = (latestBefore? event n).getD (observe start) := by
  induction n with
  | zero => rfl
  | succ n inductionHypothesis =>
      rw [overwrites n (Nat.lt_succ_self n), latestBefore?_succ,
        inductionHypothesis fun t before => overwrites t (Nat.lt_succ_of_lt before)]
      cases event n <;> rfl

/-- `time` is the last cycle before `now` in which the event happens. -/
def IsLatest (Event : Nat → Prop) (now time : Nat) : Prop :=
  time < now ∧ Event time ∧ ∀ t, time < t → t < now → ¬ Event t

instance (Event : Nat → Prop) [DecidablePred Event] (now time : Nat) :
    Decidable (IsLatest Event now time) :=
  decidable_of_iff
    (time < now ∧ Event time ∧ ∀ t, t < now → time < t → ¬ Event t) <| by
      constructor
      · rintro ⟨before, happens, quiet⟩
        exact ⟨before, happens, fun t after bound => quiet t bound after⟩
      · rintro ⟨before, happens, quiet⟩
        exact ⟨before, happens, fun t bound after => quiet t after bound⟩

theorem IsLatest.unique {Event : Nat → Prop} {now first second : Nat}
    (latest : IsLatest Event now first) (other : IsLatest Event now second) :
    first = second := by
  rcases Nat.lt_trichotomy first second with before | equal | after
  · exact absurd other.2.1 (latest.2.2 second before other.1)
  · exact equal
  · exact absurd latest.2.1 (other.2.2 first after latest.1)

theorem isLatest_or_quiet (Event : Nat → Prop) (start now : Nat) :
    (∃ time, start ≤ time ∧ IsLatest Event now time) ∨
      ∀ t, start ≤ t → t < now → ¬ Event t := by
  induction now with
  | zero => exact Or.inr fun t _ bound => absurd bound (Nat.not_lt_zero t)
  | succ now inductionHypothesis =>
      by_cases happens : start ≤ now ∧ Event now
      · refine Or.inl ⟨now, happens.1, Nat.lt_succ_self now, happens.2, ?_⟩
        intro t after before
        omega
      · have top : ∀ t, start ≤ t → t = now → ¬ Event t := by
          rintro t begun rfl event
          exact happens ⟨begun, event⟩
        rcases inductionHypothesis with ⟨time, begun, before, event, quiet⟩ | quiet
        · refine Or.inl ⟨time, begun, Nat.lt_succ_of_lt before, event, ?_⟩
          intro t after bound
          rcases Nat.lt_succ_iff_lt_or_eq.mp bound with inside | last
          · exact quiet t after inside
          · exact top t (by omega) last
        · refine Or.inr fun t begun bound => ?_
          rcases Nat.lt_succ_iff_lt_or_eq.mp bound with inside | last
          · exact quiet t begun inside
          · exact top t begun last

end DigitalSystems.Clocked
