import Taskman.LTS.While
import Taskman.Numeric.Ladder
import Mathlib.Algebra.Order.Field.Rat
import Mathlib.Tactic.Linarith
import Mathlib.Tactic.NormNum
import Mathlib.Tactic.Ring

/-!
# The scale of a byte-rate chart

The top of a chart is its peak, rounded up to 1, 2 or 5 times a power of ten of the 1024-based unit
below it.  The largest unit is 1024⁴: a peak above the next power of 1024 has no scale.

* `RateScale.niceRateMax` : the search for the unit, and the table of steps;
* `RateScale.niceRateMax_eq` : **it rounds up on the ladder of all these scales**;
* `RateScale.Scales` : the scale covers the peak, is round, close to it and monotone;
* `RateScale.scales_iff` : **it does so exactly up to a peak of 1024⁵**.
-/

namespace Taskman

namespace RateScale

open Ladder (ceil)

/-- A kilobyte. -/
def K : ℚ := 1024

/-- The smallest scale. -/
def FLOOR : ℚ := K

/-- One turn of the search for the 1024-based unit just below the peak. -/
def widen (peak unit : ℚ) : Option ℚ :=
  if unit * K ≤ peak ∧ unit < K * K * K * K then some (unit * K) else none

/-- The unit, after the at most three turns of the search. -/
def unitOf (peak : ℚ) : ℚ := While.run (widen peak) 3 FLOOR

/-- The steps of a scale, up to a thousand. -/
def STEPS : List ℚ := [1, 2, 5, 10, 20, 50, 100, 200, 500]

/-- The first step of a unit that is not below the peak, or else the next unit. -/
def stepOf (peak unit : ℚ) : ℚ :=
  ((STEPS.map (· * unit)).find? fun candidate => peak ≤ candidate).getD (K * unit)

/-- `nice_rate_max`; a peak that is not finite is `none`. -/
def niceRateMax : Option ℚ → ℚ
  | none => FLOOR
  | some peak => if peak ≤ FLOOR then FLOOR else stepOf peak (unitOf peak)

/-- What is asked of the scale of a peak. -/
structure Scales (peak : ℚ) : Prop where
  /-- The search for the unit has ended. -/
  ends : widen peak (unitOf peak) = none
  covers : peak ≤ niceRateMax (some peak)
  floor : 1024 ≤ niceRateMax (some peak)
  /-- It is 1, 2 or 5 times a power of ten below 1000 times a power of 1024. -/
  round : ∃ m ∈ [1, 2, 5], ∃ e < 3, ∃ j, niceRateMax (some peak) = m * 10 ^ e * 1024 ^ j
  tight : niceRateMax (some peak) ≤ 5 / 2 * max peak 1024
  mono : ∀ lower ≤ peak, niceRateMax (some lower) ≤ niceRateMax (some peak)

/-! ### The ladder of the scales -/

/-- The scales of a unit. -/
def rungs (unit : ℚ) : List ℚ := STEPS.map (· * unit)

/-- All scales but the largest. -/
def SCALES : List ℚ := rungs K ++ (rungs (K ^ 2) ++ (rungs (K ^ 3) ++ rungs (K ^ 4)))

/-- The largest scale. -/
def TOP : ℚ := K ^ 5

theorem rungs_cons (unit : ℚ) : rungs unit = unit :: STEPS.tail.map (· * unit) := by
  rw [rungs, STEPS, List.map_cons, one_mul]
  rfl

theorem lt_of_mem_rungs {unit peak rung : ℚ} (hunit : 0 < unit) (hpeak : K * unit ≤ peak)
    (h : rung ∈ rungs unit) : rung < peak := by
  obtain ⟨step, hstep, rfl⟩ := List.mem_map.mp h
  have hsteps : ∀ step ∈ STEPS, step < K := by decide +kernel
  exact (mul_lt_mul_of_pos_right (hsteps step hstep) hunit).trans_le hpeak

theorem stepOf_eq (peak unit : ℚ) : stepOf peak unit = ceil (rungs unit) (K * unit) peak := rfl

theorem K_gt_one : 1 < K := by
  rw [K]
  norm_num

theorem pow_pos_K (j : ℕ) : 0 < K ^ j := pow_pos (zero_lt_one.trans K_gt_one) j

/-! ### The search for the unit -/

section Unit

variable {peak : ℚ} {j : ℕ}

theorem widen_pow (hj : j < 3) (h : K ^ (j + 2) ≤ peak) :
    widen peak (K ^ (j + 1)) = some (K ^ (j + 2)) := by
  have hlarge : K ^ (j + 1) < K * K * K * K := by
    calc K ^ (j + 1) < K ^ 4 := pow_lt_pow_right₀ K_gt_one (by omega)
      _ = K * K * K * K := by ring
  rw [widen, ← pow_succ, if_pos ⟨h, hlarge⟩]

/-- The search ends below the next unit, and at the largest. -/
theorem widen_eq_none (h : j < 3 → peak < K ^ (j + 2)) : widen peak (K ^ (j + 1)) = none := by
  refine if_neg fun ⟨hle, hlarge⟩ => ?_
  rw [← pow_succ] at hle
  rcases Nat.lt_or_ge j 3 with hj | hj
  · exact absurd hle (not_le.mpr (h hj))
  · have hK : K * K * K * K = K ^ 4 := by ring
    rw [hK] at hlarge
    exact absurd (pow_le_pow_right₀ K_gt_one.le (by omega : 4 ≤ j + 1)) (not_le.mpr hlarge)

/-- So many turns lead to a unit that is not above the peak. -/
theorem run_widen (turns : ℕ) (hj : j ≤ 3) (h : K ^ (j + 1) ≤ peak) :
    While.run (widen peak) (j + turns) FLOOR = While.run (widen peak) turns (K ^ (j + 1)) := by
  induction j generalizing turns with
  | zero => rw [Nat.zero_add, Nat.zero_add, pow_one, FLOOR]
  | succ j ih =>
    have hbefore : K ^ (j + 1) ≤ peak :=
      (pow_le_pow_right₀ K_gt_one.le (Nat.le_succ _)).trans h
    rw [Nat.succ_add_eq_add_succ, ih (turns + 1) (Nat.le_of_succ_le hj) hbefore,
      While.run_of_some (widen_pow hj h)]

theorem unitOf_eq (hj : j ≤ 3) (hlow : K ^ (j + 1) ≤ peak) (hhigh : j < 3 → peak < K ^ (j + 2)) :
    unitOf peak = K ^ (j + 1) := by
  obtain ⟨turns, hturns⟩ := Nat.exists_eq_add_of_le hj
  rw [unitOf, hturns, run_widen turns hj hlow, While.run_of_none (widen_eq_none hhigh)]

/-- Every peak above the floor has such a unit. -/
theorem exists_unit (h : K ≤ peak) :
    ∃ j ≤ 3, K ^ (j + 1) ≤ peak ∧ (j < 3 → peak < K ^ (j + 2)) := by
  by_cases h₂ : K ^ 2 ≤ peak
  · by_cases h₃ : K ^ 3 ≤ peak
    · by_cases h₄ : K ^ 4 ≤ peak
      · exact ⟨3, le_rfl, h₄, fun hj => absurd hj (lt_irrefl 3)⟩
      · exact ⟨2, by decide, h₃, fun _ => not_le.mp h₄⟩
    · exact ⟨1, by decide, h₂, fun _ => not_le.mp h₃⟩
  · exact ⟨0, by decide, (pow_one K).symm ▸ h, fun _ => not_le.mp h₂⟩

theorem widen_unitOf (peak : ℚ) : widen peak (unitOf peak) = none := by
  rcases le_or_gt K peak with h | h
  · obtain ⟨j, hj, hlow, hhigh⟩ := exists_unit h
    rw [unitOf_eq hj hlow hhigh]
    exact widen_eq_none hhigh
  · have hnone : widen peak (K ^ (0 + 1)) = none :=
      widen_eq_none fun _ => h.trans (lt_self_pow₀ K_gt_one (by decide))
    rw [zero_add, pow_one] at hnone
    rw [unitOf, FLOOR, While.run_of_none hnone, hnone]

end Unit

/-! ### Rounding up -/

/-- The part of the ladder from a unit on. -/
def ladderFrom (j : ℕ) : List ℚ := (List.range' (j + 1) (4 - j)).flatMap fun i => rungs (K ^ i)

theorem scales_eq : SCALES = ladderFrom 0 := by
  simp [SCALES, ladderFrom, List.range'_succ]

theorem ladderFrom_eq {j : ℕ} (hj : j < 4) :
    ladderFrom j = rungs (K ^ (j + 1)) ++ ladderFrom (j + 1) := by
  obtain ⟨left, hleft⟩ := Nat.exists_eq_add_of_lt hj
  have hcount : 4 - j = left + 1 := by omega
  rw [ladderFrom, hcount, List.range'_succ, List.flatMap_cons, ladderFrom]
  congr 3
  omega

/-- Lower units are passed. -/
theorem ceil_ladderFrom {peak : ℚ} {j : ℕ} (hj : j ≤ 3) (hlow : K ^ (j + 1) ≤ peak) :
    ceil SCALES TOP peak = ceil (ladderFrom j) TOP peak := by
  induction j with
  | zero => rw [scales_eq]
  | succ j ih =>
    have hbefore : K ^ (j + 1) ≤ peak :=
      (pow_le_pow_right₀ K_gt_one.le (Nat.le_succ _)).trans hlow
    rw [ih (Nat.le_of_succ_le hj) hbefore, ladderFrom_eq (by omega)]
    exact Ladder.ceil_append_of_lt fun _ hrung =>
      lt_of_mem_rungs (pow_pos_K _) ((pow_succ' K (j + 1)).symm.trans_le hlow) hrung

/-- Higher ones are not reached. -/
theorem ceil_ladderFrom_eq {peak : ℚ} {j : ℕ} (hj : j ≤ 3)
    (hhigh : j < 3 → peak < K ^ (j + 2)) :
    ceil (ladderFrom j) TOP peak = stepOf peak (K ^ (j + 1)) := by
  rw [ladderFrom_eq (Nat.lt_succ_of_le hj), stepOf_eq, ← pow_succ']
  rcases Nat.lt_or_eq_of_le hj with hlt | rfl
  · rw [ladderFrom_eq (Nat.succ_lt_succ hlt), rungs_cons (K ^ (j + 1 + 1)), List.cons_append,
      Ladder.ceil_append_cons (hhigh hlt).le]
  · rw [show ladderFrom (3 + 1) = [] from rfl, List.append_nil]
    rfl

/-- **The scale of a peak is the next rung of the ladder.** -/
theorem niceRateMax_eq (peak : ℚ) : niceRateMax (some peak) = ceil SCALES TOP peak := by
  by_cases hfloor : peak ≤ FLOOR
  · rw [niceRateMax, if_pos hfloor, SCALES, rungs_cons K, List.cons_append]
    exact (Ladder.ceil_cons_of_le hfloor _ _).symm
  · obtain ⟨j, hj, hlow, hhigh⟩ := exists_unit (not_le.mp hfloor).le
    rw [niceRateMax, if_neg hfloor, unitOf_eq hj hlow hhigh, ceil_ladderFrom hj hlow,
      ceil_ladderFrom_eq hj hhigh]

/-! ### What the scales are -/

theorem scales_cons : SCALES = K :: SCALES.tail := by
  rw [SCALES, rungs_cons K]
  rfl

theorem isChain_scales : (SCALES ++ [TOP]).IsChain fun a b => a ≤ b ∧ b ≤ 5 / 2 * a := by
  decide +kernel

theorem pairwise_scales : (SCALES ++ [TOP]).Pairwise (· ≤ ·) :=
  (isChain_scales.imp fun _ _ h => h.1).pairwise

/-- Every scale is 1, 2 or 5 times a power of ten times a power of 1024. -/
theorem round_of_mem {scale : ℚ} (h : scale ∈ SCALES ++ [TOP]) :
    ∃ m ∈ [1, 2, 5], ∃ e < 3, ∃ j, scale = m * 10 ^ e * 1024 ^ j := by
  rcases List.mem_append.mp h with h | h
  · rw [scales_eq, ladderFrom] at h
    obtain ⟨j, -, h⟩ := List.mem_flatMap.mp h
    obtain ⟨step, hstep, rfl⟩ := List.mem_map.mp h
    have hsteps : ∀ step ∈ STEPS, ∃ m ∈ [(1 : ℚ), 2, 5], ∃ e < 3, step = m * 10 ^ e := by
      decide +kernel
    obtain ⟨m, hm, e, he, rfl⟩ := hsteps step hstep
    exact ⟨m, hm, e, he, j, rfl⟩
  · refine ⟨1, List.mem_cons_self, 0, by decide, 5, ?_⟩
    rw [List.mem_singleton.mp h, TOP, K]
    norm_num

theorem floor_le_of_mem {scale : ℚ} (h : scale ∈ SCALES ++ [TOP]) : K ≤ scale := by
  have hsorted := pairwise_scales
  rw [scales_cons, List.cons_append] at h hsorted
  rcases List.mem_cons.mp h with rfl | h
  · exact le_rfl
  · exact (List.pairwise_cons.mp hsorted).1 scale h

/-- The scale is not far above the peak: the one before it is below. -/
theorem niceRateMax_le (peak : ℚ) : niceRateMax (some peak) ≤ 5 / 2 * max peak 1024 := by
  rw [niceRateMax_eq, scales_cons]
  rcases le_or_gt peak K with hle | hlt
  · rw [Ladder.ceil_cons_of_le hle]
    have hmax : K ≤ max peak 1024 := le_max_right peak 1024
    have hpos : 1 < K := K_gt_one
    linarith
  · have hchain := isChain_scales
    rw [scales_cons, List.cons_append] at hchain
    obtain ⟨scale, hbefore, -, hclose⟩ := Ladder.exists_before_ceil hchain hlt
    have hmax : peak ≤ max peak 1024 := le_max_left peak 1024
    linarith

/-- **The scale of a peak is right exactly up to 1024⁵.** -/
theorem scales_iff (peak : ℚ) : Scales peak ↔ peak ≤ 1024 ^ 5 := by
  have htop : ∀ rung ∈ SCALES, rung ≤ TOP := fun rung hrung =>
    (List.pairwise_append.mp pairwise_scales).2.2 rung hrung TOP (List.mem_singleton_self TOP)
  have hcovers : peak ≤ niceRateMax (some peak) ↔ peak ≤ 1024 ^ 5 := by
    rw [niceRateMax_eq]
    exact Ladder.le_ceil_iff htop
  refine ⟨fun h => hcovers.mp h.covers, fun h => ?_⟩
  have hmem : niceRateMax (some peak) ∈ SCALES ++ [TOP] := by
    rw [niceRateMax_eq]
    exact Ladder.ceil_mem
  exact
    { ends := widen_unitOf peak
      covers := hcovers.mpr h
      floor := floor_le_of_mem hmem
      round := round_of_mem hmem
      tight := niceRateMax_le peak
      mono := fun lower hle => by
        rw [niceRateMax_eq, niceRateMax_eq]
        exact Ladder.ceil_mono pairwise_scales hle }

/-- A peak of twice the largest scale. -/
theorem peak_above_scale : ¬ ∀ peak : ℚ, Scales peak := by
  intro h
  have hcovers := (h (2 * 1024 ^ 5)).covers
  revert hcovers
  decide +kernel

end RateScale

end Taskman
