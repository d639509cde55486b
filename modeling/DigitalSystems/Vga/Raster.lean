import DigitalSystems.Vga.Controller
import Mathlib.Data.Nat.Count

/-!
# Raster timing

Closed forms for the counters and the sync pulses, in the number of pixel clocks since
the reset was released.  The sync registers take over the counters of the pixel before.
For the columns the source's `+ 1` makes up for that; the line counter stands still
between two pixels of a line, so there the `+ 1` moves the pulse up by a line.
-/

namespace DigitalSystems.Vga.Controller

/-- The registers `t` edges of `Clk` after the reset cycle `r`. -/
def sinceReset (reset : Nat → Bool) (start : Controller) (r t : Nat) : Controller :=
  Clocked.run step reset start (r + 1 + t)

/-- Rising edges of `clkdiv` among the first `t` edges of `Clk` after the reset. -/
def pixelEdges (reset : Nat → Bool) (start : Controller) (r t : Nat) : Nat :=
  Nat.count (fun u => (sinceReset reset start r u).rises = true) t

/-- Reset is high in cycle `r` and low in the cycles after it, up to `last`. -/
structure Released (reset : Nat → Bool) (r last : Nat) : Prop where
  pressed : reset r = true
  low : ∀ t, r < t → t < last → reset t = false

theorem existsUnique_position {x y : Nat} (right : x < 800) (low : y < 525) (first : Nat) :
    ∃! k, first ≤ k ∧ k < first + 420000 ∧ k % 800 = x ∧ k / 800 % 525 = y := by
  refine ⟨first + (y * 800 + x + 420000 - first % 420000) % 420000, ?_, ?_⟩
  · refine ⟨?_, ?_, ?_, ?_⟩ <;> omega
  · rintro k ⟨after, before, column, row⟩
    omega

theorem rises_run (k : Nat) :
    (Clocked.run step (fun _ => false) zero (2 * k)).rises = true ∧
      (Clocked.run step (fun _ => false) zero (2 * k + 1)).rises = false :=
  ⟨congrArg Bool.not (position_run k).1, congrArg Bool.not (position_between k).1⟩

theorem toNat_run (t : Nat) :
    (Clocked.run step (fun _ => false) zero t).hc.toNat = (t + 1) / 2 % 800 ∧
      (Clocked.run step (fun _ => false) zero t).vc.toNat = (t + 1) / 2 / 800 % 525 := by
  rcases Nat.mod_two_eq_zero_or_one t with even | odd
  · have position := position_run ((t + 1) / 2)
    rw [show 2 * ((t + 1) / 2) = t by omega] at position
    exact position.2
  · have between := position_between (t / 2)
    have position := position_run (t / 2 + 1)
    rw [show 2 * (t / 2) + 1 = t by omega] at between
    rw [between.2.1, between.2.2, show (t + 1) / 2 = t / 2 + 1 by omega]
    exact position.2

/-- The sync registers after a pixel clock are computed from the counters before it. -/
theorem sync_run {k t : Nat} (edges : (t + 1) / 2 = k + 1) :
    (Clocked.run step (fun _ => false) zero t).hs =
        (Clocked.run step (fun _ => false) zero (2 * k)).nextHs ∧
      (Clocked.run step (fun _ => false) zero t).vs =
        (Clocked.run step (fun _ => false) zero (2 * k)).nextVs := by
  have rise : (Clocked.run step (fun _ => false) zero (2 * k + 1)).hs =
        (Clocked.run step (fun _ => false) zero (2 * k)).nextHs ∧
      (Clocked.run step (fun _ => false) zero (2 * k + 1)).vs =
        (Clocked.run step (fun _ => false) zero (2 * k)).nextVs := by
    simp [Clocked.run_succ, step, (rises_run k).1]
  rcases Nat.mod_two_eq_zero_or_one t with even | odd
  · obtain rfl : t = 2 * k + 1 + 1 := by omega
    have fall : Clocked.run step (fun _ => false) zero (2 * k + 1 + 1) =
        { Clocked.run step (fun _ => false) zero (2 * k + 1) with clkdiv := false } := by
      rw [Clocked.run_succ]
      simp [step, (rises_run k).2]
    rw [fall]
    exact rise
  · obtain rfl : t = 2 * k + 1 := by omega
    exact rise

theorem nextHs_eq_false_iff (c : Controller) :
    c.nextHs = false ↔ 655 ≤ c.hc.toNat ∧ c.hc.toNat < 751 := by
  simp only [nextHs, Bool.not_eq_false', Bool.and_eq_true, decide_eq_true_eq]
  omega

theorem nextVs_eq_false_iff (c : Controller) :
    c.nextVs = false ↔ c.vc.toNat = 489 ∨ c.vc.toNat = 490 := by
  simp only [nextVs, Bool.not_eq_false', Bool.or_eq_true, beq_iff_eq]
  omega

section Released

variable {reset : Nat → Bool} {start : Controller} {r last : Nat}

theorem sinceReset_eq_run (released : Released reset r last) {t : Nat}
    (bound : r + 1 + t ≤ last) :
    sinceReset reset start r t = Clocked.run step (fun _ => false) zero t := by
  have fresh : Clocked.run step reset start (r + 1) = zero := by
    rw [Clocked.run_succ, released.pressed]
    rfl
  rw [sinceReset, Clocked.run_add, fresh]
  apply Clocked.run_congr
  intro u before
  exact released.low (r + 1 + u) (by omega) (by omega)

theorem pixelEdges_eq (released : Released reset r last) {t : Nat}
    (bound : r + 1 + t ≤ last) : pixelEdges reset start r t = (t + 1) / 2 := by
  induction t with
  | zero => rfl
  | succ t inductionHypothesis =>
      rw [pixelEdges, Nat.count_succ, ← pixelEdges, inductionHypothesis (by omega),
        sinceReset_eq_run released (by omega)]
      rcases Nat.mod_two_eq_zero_or_one t with even | odd
      · have rise := (rises_run (t / 2)).1
        rw [show 2 * (t / 2) = t by omega] at rise
        rw [if_pos rise]
        omega
      · have fall := (rises_run (t / 2)).2
        rw [show 2 * (t / 2) + 1 = t by omega] at fall
        rw [fall, if_neg Bool.false_ne_true]
        omega

/-- The registers after `k` pixel clocks. -/
structure RasterAt (c : Controller) (k : Nat) : Prop where
  hc : c.hc.toNat = k % 800
  vc : c.vc.toNat = k / 800 % 525
  blank : c.blank = true ↔ c.hc.toNat < 640 ∧ c.vc.toNat < 480
  hs : 1 ≤ k → (c.hs = false ↔ 656 ≤ c.hc.toNat ∧ c.hc.toNat ≤ 751)

theorem rasterAt (released : Released reset r last) {t : Nat} (bound : r + 1 + t ≤ last) :
    RasterAt (sinceReset reset start r t) (pixelEdges reset start r t) := by
  rw [sinceReset_eq_run released bound, pixelEdges_eq released bound]
  have position := toNat_run t
  refine ⟨position.1, position.2, blank_eq_true_iff _, ?_⟩
  intro begun
  obtain ⟨k, edges⟩ := Nat.exists_eq_add_of_le' begun
  have before := toNat_run (2 * k)
  rw [(sync_run edges).1, nextHs_eq_false_iff, before.1, position.1, edges]
  omega

/-- The scan visits every position once a frame, is on screen on 640 columns of 480
lines, and pulls `hs` low in the columns 656 to 751. -/
theorem raster_closed_form (released : Released reset r last) :
    (∀ t, r + 1 + t ≤ last →
        RasterAt (sinceReset reset start r t) (pixelEdges reset start r t)) ∧
      ∀ first, r + 1 + 2 * (first + 420000) ≤ last → ∀ x, x < 800 → ∀ y, y < 525 →
        ∃! k, first ≤ k ∧ k < first + 420000 ∧
          ∃ t, r + 1 + t ≤ last ∧ pixelEdges reset start r t = k ∧
            (sinceReset reset start r t).hc.toNat = x ∧
            (sinceReset reset start r t).vc.toNat = y := by
  refine ⟨fun t bound => rasterAt released bound, ?_⟩
  intro first bound x right y low
  obtain ⟨k, ⟨after, before, column, row⟩, unique⟩ := existsUnique_position right low first
  refine ⟨k, ⟨after, before, 2 * k, ?_, ?_, ?_, ?_⟩, ?_⟩
  · omega
  · rw [pixelEdges_eq released (by omega)]
    omega
  · rw [(rasterAt released (by omega)).hc, pixelEdges_eq released (by omega), ← column]
    omega
  · rw [(rasterAt released (by omega)).vc, pixelEdges_eq released (by omega), ← row]
    omega
  · rintro k' ⟨after', before', t, inside, rfl, rfl, rfl⟩
    have visited : RasterAt (sinceReset reset start r t) (pixelEdges reset start r t) :=
      rasterAt released inside
    exact unique _ ⟨after', before', visited.hc.symm, visited.vc.symm⟩

end Released

theorem released_first (last : Nat) : Released (fun t => t == 0) 0 last :=
  ⟨rfl, fun t after _ => by simp [Nat.ne_of_gt after]⟩

theorem raster_closed_form_twoFrames :
    (∀ t, 0 + 1 + t ≤ 1680001 →
        RasterAt (sinceReset (fun t => t == 0) zero 0 t)
          (pixelEdges (fun t => t == 0) zero 0 t)) ∧
      ∀ first, 0 + 1 + 2 * (first + 420000) ≤ 1680001 → ∀ x, x < 800 → ∀ y, y < 525 →
        ∃! k, first ≤ k ∧ k < first + 420000 ∧
          ∃ t, 0 + 1 + t ≤ 1680001 ∧ pixelEdges (fun t => t == 0) zero 0 t = k ∧
            (sinceReset (fun t => t == 0) zero 0 t).hc.toNat = x ∧
            (sinceReset (fun t => t == 0) zero 0 t).vc.toNat = y :=
  raster_closed_form (released_first 1680001)

section Pulse

variable {reset : Nat → Bool} {start : Controller} {r last : Nat}

/-- One pixel clock after the `k`-th, `vs` is low exactly when the beam was on line 490
or 491. -/
def PulseOnTime (reset : Nat → Bool) (start : Controller) (r last k : Nat) : Prop :=
  ∀ t t', r + 1 + t ≤ last → r + 1 + t' ≤ last → pixelEdges reset start r t = k →
    pixelEdges reset start r t' = k + 1 →
    ((sinceReset reset start r t').vs = false ↔
      (sinceReset reset start r t).vc.toNat = 490 ∨
        (sinceReset reset start r t).vc.toNat = 491)

theorem vs_eq_false_iff (released : Released reset r last) {k t t' : Nat}
    (bound : r + 1 + t ≤ last) (bound' : r + 1 + t' ≤ last)
    (edges : pixelEdges reset start r t = k) (edges' : pixelEdges reset start r t' = k + 1) :
    (sinceReset reset start r t').vs = false ↔
      (sinceReset reset start r t).vc.toNat = 489 ∨
        (sinceReset reset start r t).vc.toNat = 490 := by
  rw [pixelEdges_eq released bound] at edges
  rw [pixelEdges_eq released bound'] at edges'
  rw [sinceReset_eq_run released bound, sinceReset_eq_run released bound',
    (sync_run edges').2, nextVs_eq_false_iff, (toNat_run (2 * k)).2, (toNat_run t).2, edges]
  have clocks : (2 * k + 1) / 2 = k := by omega
  rw [clocks]

/-- The pulse is two lines long, but it stands on the lines 489 and 490. -/
theorem pulseOnTime_iff (released : Released reset r last) {k : Nat}
    (bound : r + 1 + 2 * (k + 1) ≤ last) :
    (PulseOnTime reset start r last k ↔ k / 800 % 525 ≠ 489 ∧ k / 800 % 525 ≠ 491) ∧
      ∀ t t', r + 1 + t ≤ last → r + 1 + t' ≤ last → pixelEdges reset start r t = k →
        pixelEdges reset start r t' = k + 1 →
        ((sinceReset reset start r t').vs = false ↔
          (sinceReset reset start r t).vc.toNat = 489 ∨
            (sinceReset reset start r t).vc.toNat = 490) := by
  refine ⟨⟨?_, ?_⟩, ?_⟩
  · intro onTime
    have edges : pixelEdges reset start r (2 * k) = k := by
      rw [pixelEdges_eq released (by omega)]
      omega
    have edges' : pixelEdges reset start r (2 * k + 1) = k + 1 := by
      rw [pixelEdges_eq released (by omega)]
      omega
    have line : (sinceReset reset start r (2 * k)).vc.toNat =
        pixelEdges reset start r (2 * k) / 800 % 525 := (rasterAt released (by omega)).vc
    have expected := onTime _ _ (by omega) (by omega) edges edges'
    rw [vs_eq_false_iff released (by omega) (by omega) edges edges', line, edges] at expected
    omega
  · rintro ⟨early, late⟩ t t' inside inside' edges edges'
    have line : (sinceReset reset start r t).vc.toNat =
        pixelEdges reset start r t / 800 % 525 := (rasterAt released inside).vc
    rw [edges] at line
    rw [vs_eq_false_iff released inside inside' edges edges', line]
    omega
  · intro t t' inside inside' edges edges'
    exact vs_eq_false_iff released inside inside' edges edges'

end Pulse

/-- On line 489 of the first frame the pulse has already begun. -/
theorem line489_not_onTime :
    ¬ PulseOnTime (fun t => t == 0) zero 0 782403 391200 := by
  intro onTime
  have released := released_first 782403
  have edges : pixelEdges (fun t => t == 0) zero 0 782400 = 391200 :=
    pixelEdges_eq released (by decide)
  have edges' : pixelEdges (fun t => t == 0) zero 0 782401 = 391201 :=
    pixelEdges_eq released (by decide)
  have line : (sinceReset (fun t => t == 0) zero 0 782400).vc.toNat = 489 := by
    rw [(rasterAt released (by decide)).vc, edges]
  have low := (vs_eq_false_iff released (by decide) (by decide) edges edges').mpr (.inl line)
  have expected := (onTime _ _ (by decide) (by decide) edges edges').mp low
  omega

theorem pulseOnTime_iff_line489 :
    (PulseOnTime (fun t => t == 0) zero 0 782403 391200 ↔
        391200 / 800 % 525 ≠ 489 ∧ 391200 / 800 % 525 ≠ 491) ∧
      ∀ t t', 0 + 1 + t ≤ 782403 → 0 + 1 + t' ≤ 782403 →
        pixelEdges (fun t => t == 0) zero 0 t = 391200 →
        pixelEdges (fun t => t == 0) zero 0 t' = 391200 + 1 →
        ((sinceReset (fun t => t == 0) zero 0 t').vs = false ↔
          (sinceReset (fun t => t == 0) zero 0 t).vc.toNat = 489 ∨
            (sinceReset (fun t => t == 0) zero 0 t).vc.toNat = 490) :=
  pulseOnTime_iff (released_first 782403) (by decide)

end DigitalSystems.Vga.Controller
