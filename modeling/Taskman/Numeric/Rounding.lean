import Mathlib.Algebra.Order.Field.Power
import Mathlib.Algebra.Order.Round
import Mathlib.Data.Int.Log
import Mathlib.Data.Rat.Floor
import Mathlib.Tactic.FieldSimp
import Mathlib.Tactic.Linarith
import Mathlib.Tactic.Positivity
import Mathlib.Tactic.Ring

/-!
# Rounding to a binary floating-point format

Rounding to nearest, ties to even, over the exact rationals: first to the integers, then to the
numbers of a binary format, which are the multiples of the unit in the last place.

* `roundHalfEven` : the nearest integer, and of two the even one;
* `roundHalfAway` : the nearest integer, and of two the one away from zero;
* `BinaryFormat.round` : the nearest number of a format;
* `BinaryFormat.round_eq_self_iff` : **the fixed points are the numbers of the format**;
* `BinaryFormat.abs_round_sub_le` : the error is at most half a unit in the last place;
* `BinaryFormat.round_mono` : **a larger number is not rounded to a smaller one**;
* `BinaryFormat.Representable.sub` : **the difference of two numbers of the format is exact**, where
  the larger is at most twice the other.
-/

/-! ### To the integers -/

/-- The nearest integer, and of two the even one. -/
def roundHalfEven (x : ℚ) : ℤ :=
  if x - ⌊x⌋ < 1 / 2 then ⌊x⌋
  else if 1 / 2 < x - ⌊x⌋ then ⌊x⌋ + 1
  else if 2 ∣ ⌊x⌋ then ⌊x⌋ else ⌊x⌋ + 1

@[simp]
theorem roundHalfEven_intCast (n : ℤ) : roundHalfEven n = n := by
  rw [roundHalfEven, Int.floor_intCast, if_pos (by norm_num)]

theorem abs_roundHalfEven_sub_le (x : ℚ) : |(roundHalfEven x : ℚ) - x| ≤ 1 / 2 := by
  have hlo : (⌊x⌋ : ℚ) ≤ x := Int.floor_le x
  have hhi : x < ⌊x⌋ + 1 := Int.lt_floor_add_one x
  rw [abs_le, roundHalfEven]
  split_ifs with h₁ h₂ h₃
  · constructor <;> linarith
  · push_cast
    constructor <;> linarith
  · constructor <;> linarith
  · push_cast
    constructor <;> linarith

theorem roundHalfEven_mono {x y : ℚ} (h : x ≤ y) : roundHalfEven x ≤ roundHalfEven y := by
  have hfloor : ⌊x⌋ ≤ ⌊y⌋ := Int.floor_le_floor h
  rcases hfloor.eq_or_lt with heq | hlt
  · -- in one unit interval the two are rounded by their distance from its end
    unfold roundHalfEven
    rw [heq]
    have hsub : x - ⌊y⌋ ≤ y - ⌊y⌋ := sub_le_sub_right h _
    split_ifs <;> first | omega | linarith
  · have hx : roundHalfEven x ≤ ⌊x⌋ + 1 := by
      unfold roundHalfEven
      split_ifs <;> omega
    have hy : ⌊y⌋ ≤ roundHalfEven y := by
      unfold roundHalfEven
      split_ifs <;> omega
    omega

theorem roundHalfEven_eq_of_abs_lt {x : ℚ} {n : ℤ} (h : |x - n| < 1 / 2) :
    roundHalfEven x = n := by
  have hle := abs_roundHalfEven_sub_le x
  have hlt : |((roundHalfEven x - n : ℤ) : ℚ)| < 1 := by
    rw [abs_lt] at h ⊢
    rw [abs_le] at hle
    push_cast
    constructor <;> linarith
  have hz : |roundHalfEven x - n| < 1 := by exact_mod_cast hlt
  rw [Int.abs_lt_one_iff] at hz
  omega

theorem abs_roundHalfEven_le {x : ℚ} {n : ℤ} (h : |x| ≤ n) : |roundHalfEven x| ≤ n := by
  have hle := abs_roundHalfEven_sub_le x
  have hlt : ((|roundHalfEven x| : ℤ) : ℚ) < ((n + 1 : ℤ) : ℚ) := by
    push_cast
    rw [abs_lt]
    rw [abs_le] at hle h
    constructor <;> linarith
  have hz : |roundHalfEven x| < n + 1 := by exact_mod_cast hlt
  omega

/-- The nearest integer, and of two the one away from zero. -/
def roundHalfAway (x : ℚ) : ℤ :=
  if 0 ≤ x then ⌊x + 1 / 2⌋ else -⌊-x + 1 / 2⌋

theorem roundHalfAway_of_nonneg {x : ℚ} (h : 0 ≤ x) : roundHalfAway x = ⌊x + 1 / 2⌋ := if_pos h

@[simp]
theorem roundHalfAway_intCast (n : ℤ) : roundHalfAway n = n := by
  have hhalf : ∀ m : ℤ, ⌊(m : ℚ) + 1 / 2⌋ = m := by
    intro m
    rw [Int.floor_intCast_add, show ⌊(1 / 2 : ℚ)⌋ = 0 by norm_num, add_zero]
  rw [roundHalfAway, hhalf, ← Int.cast_neg, hhalf, neg_neg, ite_self]

theorem abs_roundHalfAway_sub_le (x : ℚ) : |(roundHalfAway x : ℚ) - x| ≤ 1 / 2 := by
  have hfloor := fun y : ℚ =>
    And.intro (Int.floor_le (y + 1 / 2)) (Int.lt_floor_add_one (y + 1 / 2))
  rw [abs_le, roundHalfAway]
  split
  · obtain ⟨hlo, hhi⟩ := hfloor x
    constructor <;> linarith
  · obtain ⟨hlo, hhi⟩ := hfloor (-x)
    push_cast
    constructor <;> linarith

/-! ### To a binary format -/

/-- Numbers with a significand of `precision` bits and exponents from `minExponent` on. -/
structure BinaryFormat where
  precision : ℕ
  minExponent : ℤ
  precision_pos : 0 < precision

namespace BinaryFormat

variable (F : BinaryFormat)

/-- Exponent of the unit in the last place at `x`. -/
def ulpExponent (x : ℚ) : ℤ := max (Int.log 2 |x| + 1 - F.precision) F.minExponent

/-- The nearest number of the format, with no upper bound on the exponent. -/
def round (x : ℚ) : ℚ := roundHalfEven (x / 2 ^ F.ulpExponent x) * 2 ^ F.ulpExponent x

/-- The numbers of the format: a significand in range, times a power of two. -/
def Representable (x : ℚ) : Prop :=
  ∃ (k : ℤ) (e : ℤ), |k| ≤ 2 ^ F.precision ∧ F.minExponent ≤ e ∧ x = k * 2 ^ e

variable {F}

theorem minExponent_le_ulpExponent (x : ℚ) : F.minExponent ≤ F.ulpExponent x := le_max_right _ _

theorem abs_lt_two_zpow (x : ℚ) : |x| < 2 ^ (F.ulpExponent x + F.precision) := by
  have h : |x| < ((2 : ℕ) : ℚ) ^ (Int.log 2 |x| + 1) := Int.lt_zpow_succ_log_self (by norm_num) _
  refine lt_of_lt_of_le h ?_
  push_cast
  refine zpow_le_zpow_right₀ (by norm_num) ?_
  have : Int.log 2 |x| + 1 - F.precision ≤ F.ulpExponent x := le_max_left _ _
  omega

theorem ulpExponent_le {x : ℚ} {n : ℤ} (hx : x ≠ 0) (h : |x| < 2 ^ n) :
    F.ulpExponent x ≤ max (n - F.precision) F.minExponent := by
  have hlog : Int.log 2 |x| < n :=
    (Int.lt_zpow_iff_log_lt (by norm_num) (abs_pos.mpr hx)).mp (by exact_mod_cast h)
  unfold ulpExponent
  exact max_le_max (by omega) le_rfl

/-- **The error is at most half a unit in the last place.** -/
theorem abs_round_sub_le (x : ℚ) : |F.round x - x| ≤ 2 ^ F.ulpExponent x / 2 := by
  have hpos : (0 : ℚ) < 2 ^ F.ulpExponent x := by positivity
  have hx : F.round x - x =
      (roundHalfEven (x / 2 ^ F.ulpExponent x) - x / 2 ^ F.ulpExponent x) *
        2 ^ F.ulpExponent x := by
    rw [round]
    field_simp
  rw [hx, abs_mul, abs_of_pos hpos]
  have := mul_le_mul_of_nonneg_right (abs_roundHalfEven_sub_le (x / 2 ^ F.ulpExponent x)) hpos.le
  linarith

/-- A number has at most as many units in the last place as the format has significands. -/
theorem abs_roundHalfEven_units_le (x : ℚ) :
    |roundHalfEven (x / 2 ^ F.ulpExponent x)| ≤ 2 ^ F.precision := by
  refine abs_roundHalfEven_le ?_
  have hpos : (0 : ℚ) < 2 ^ F.ulpExponent x := by positivity
  rw [abs_div, abs_of_pos hpos, div_le_iff₀ hpos]
  have h := (abs_lt_two_zpow (F := F) x).le
  rw [zpow_add₀ (by norm_num), zpow_natCast] at h
  push_cast
  linarith

theorem representable_round (x : ℚ) : F.Representable (F.round x) :=
  ⟨_, F.ulpExponent x, abs_roundHalfEven_units_le x, minExponent_le_ulpExponent x, rfl⟩

theorem round_of_multiple {x : ℚ} {n : ℤ} (h : x = n * 2 ^ F.ulpExponent x) : F.round x = x := by
  have hpos : (2 : ℚ) ^ F.ulpExponent x ≠ 0 := by positivity
  have hdiv : x / 2 ^ F.ulpExponent x = n := by
    rw [div_eq_iff hpos]
    exact h
  rw [round, hdiv, roundHalfEven_intCast]
  exact h.symm

/-- The unit exceeds the exponent of a number of the format only at the power of two that ends its
binade, and there by one. -/
theorem abs_eq_of_lt_ulpExponent {k e : ℤ} (hk0 : k ≠ 0) (hk : |k| ≤ 2 ^ F.precision)
    (he : F.minExponent ≤ e) (h : e < F.ulpExponent (k * 2 ^ e)) :
    |k| = 2 ^ F.precision ∧ F.ulpExponent (k * 2 ^ e) = e + 1 := by
  have hpos : (0 : ℚ) < 2 ^ e := by positivity
  have habs : |(k : ℚ) * 2 ^ e| = |(k : ℚ)| * 2 ^ e := by rw [abs_mul, abs_of_pos hpos]
  have hx : 0 < |(k : ℚ) * 2 ^ e| := by
    rw [habs]
    have : (0 : ℚ) < |(k : ℚ)| := abs_pos.mpr (by exact_mod_cast hk0)
    positivity
  have hmax : F.ulpExponent (k * 2 ^ e) = Int.log 2 |(k : ℚ) * 2 ^ e| + 1 - F.precision := by
    unfold ulpExponent at h ⊢
    omega
  -- The binade of the number begins at least `precision` powers above its exponent.
  have hlow : (2 : ℚ) ^ (e + F.precision) ≤ |(k : ℚ)| * 2 ^ e := by
    rw [← habs]
    have hlog : e + F.precision ≤ Int.log 2 |(k : ℚ) * 2 ^ e| := by omega
    exact_mod_cast (Int.zpow_le_iff_le_log (b := 2) (by norm_num) hx).mpr hlog
  have hge : (2 : ℤ) ^ F.precision ≤ |k| := by
    rw [zpow_add₀ (by norm_num), zpow_natCast, mul_comm] at hlow
    have := le_of_mul_le_mul_right hlow hpos
    exact_mod_cast this
  have heq : |k| = 2 ^ F.precision := le_antisymm hk hge
  refine ⟨heq, ?_⟩
  have hval : |(k : ℚ) * 2 ^ e| = ((2 : ℕ) : ℚ) ^ (e + F.precision) := by
    have hkq : |(k : ℚ)| = 2 ^ F.precision := by exact_mod_cast heq
    rw [habs, hkq, Nat.cast_ofNat, zpow_add₀ (by norm_num), zpow_natCast, mul_comm]
  rw [hmax, hval, Int.log_zpow (by norm_num)]
  ring

theorem round_of_representable {x : ℚ} (h : F.Representable x) : F.round x = x := by
  obtain ⟨k, e, hk, he, rfl⟩ := h
  rcases eq_or_ne k 0 with rfl | hk0
  · exact round_of_multiple (n := 0) (by simp)
  rcases le_or_gt (F.ulpExponent (k * 2 ^ e)) e with hle | hlt
  · -- The unit divides every multiple of a larger power of two.
    obtain ⟨d, hd⟩ := Int.le.dest hle
    refine round_of_multiple (n := k * 2 ^ d) ?_
    conv_lhs => rw [← hd]
    rw [zpow_add₀ (by norm_num), zpow_natCast]
    push_cast
    ring
  · -- Only the end of the binade is left, and there half the significand is whole.
    obtain ⟨hend, hunit⟩ := abs_eq_of_lt_ulpExponent hk0 hk he hlt
    obtain ⟨p, hp⟩ := Nat.exists_eq_succ_of_ne_zero F.precision_pos.ne'
    have hdvd : (2 : ℤ) ∣ k := by
      rw [← dvd_abs, hend, hp, pow_succ]
      exact dvd_mul_left _ _
    obtain ⟨j, rfl⟩ := hdvd
    refine round_of_multiple (n := j) ?_
    rw [hunit, zpow_add₀ (by norm_num), zpow_one]
    push_cast
    ring

/-- **The fixed points are the numbers of the format.** -/
theorem round_eq_self_iff {x : ℚ} : F.round x = x ↔ F.Representable x := by
  constructor
  · intro h
    rw [← h]
    exact representable_round x
  · exact round_of_representable

@[simp]
theorem round_round (x : ℚ) : F.round (F.round x) = F.round x :=
  round_of_representable (representable_round x)

theorem representable_intCast (he : F.minExponent ≤ 0) {n : ℤ} (h : |n| ≤ 2 ^ F.precision) :
    F.Representable n :=
  ⟨n, 0, h, he, by simp⟩

/-! ### Order -/

theorem ulpExponent_mono {x y : ℚ} (hx : x ≠ 0) (h : |x| ≤ |y|) :
    F.ulpExponent x ≤ F.ulpExponent y := by
  have hlog : Int.log 2 |x| ≤ Int.log 2 |y| := Int.log_mono_right (abs_pos.mpr hx) h
  unfold ulpExponent
  exact max_le_max (by omega) le_rfl

theorem Representable.exists_units {x : ℚ} (h : F.Representable x) :
    ∃ n : ℤ, x = n * 2 ^ F.ulpExponent x :=
  ⟨roundHalfEven (x / 2 ^ F.ulpExponent x), (round_of_representable h).symm⟩

@[simp]
theorem round_zero : F.round 0 = 0 := round_of_multiple (n := 0) (by simp)

theorem round_nonneg {x : ℚ} (h : 0 ≤ x) : 0 ≤ F.round x := by
  have hpos : (0 : ℚ) < 2 ^ F.ulpExponent x := by positivity
  have hunits : roundHalfEven ((0 : ℤ) : ℚ) ≤ roundHalfEven (x / 2 ^ F.ulpExponent x) :=
    roundHalfEven_mono (by simpa using div_nonneg h hpos.le)
  rw [roundHalfEven_intCast] at hunits
  exact mul_nonneg (by exact_mod_cast hunits) hpos.le

theorem round_nonpos {x : ℚ} (h : x ≤ 0) : F.round x ≤ 0 := by
  have hpos : (0 : ℚ) < 2 ^ F.ulpExponent x := by positivity
  have hunits : roundHalfEven (x / 2 ^ F.ulpExponent x) ≤ roundHalfEven ((0 : ℤ) : ℚ) :=
    roundHalfEven_mono (by simpa using div_nonpos_of_nonpos_of_nonneg h hpos.le)
  rw [roundHalfEven_intCast] at hunits
  exact mul_nonpos_of_nonpos_of_nonneg (by exact_mod_cast hunits) hpos.le

theorem abs_round_le_two_zpow (x : ℚ) : |F.round x| ≤ 2 ^ (F.ulpExponent x + F.precision) := by
  have hpos : (0 : ℚ) < 2 ^ F.ulpExponent x := by positivity
  have hcast : |(roundHalfEven (x / 2 ^ F.ulpExponent x) : ℚ)| ≤ 2 ^ F.precision := by
    exact_mod_cast abs_roundHalfEven_units_le x
  rw [round, abs_mul, abs_of_pos hpos, zpow_add₀ (by norm_num), zpow_natCast,
    mul_comm ((2 : ℚ) ^ F.ulpExponent x)]
  exact mul_le_mul_of_nonneg_right hcast hpos.le

/-- **A larger number is not rounded to a smaller one.** -/
theorem round_mono {x y : ℚ} (hx : 0 ≤ x) (h : x ≤ y) : F.round x ≤ F.round y := by
  rcases hx.eq_or_lt with rfl | hpos
  · rw [round_zero]
    exact round_nonneg h
  have hunit : F.ulpExponent x ≤ F.ulpExponent y :=
    ulpExponent_mono hpos.ne' (by rwa [abs_of_pos hpos, abs_of_pos (hpos.trans_le h)])
  have hy : (0 : ℚ) < 2 ^ F.ulpExponent y := by positivity
  rcases hunit.eq_or_lt with heq | hlt
  · unfold round
    rw [heq]
    have hdiv : x / 2 ^ F.ulpExponent y ≤ y / 2 ^ F.ulpExponent y :=
      div_le_div_of_nonneg_right h hy.le
    exact mul_le_mul_of_nonneg_right (by exact_mod_cast roundHalfEven_mono hdiv) hy.le
  · -- a power of two separates the two binades
    obtain ⟨p, hp⟩ := Nat.exists_eq_succ_of_ne_zero F.precision_pos.ne'
    have hend : F.round x ≤ 2 ^ (p : ℤ) * 2 ^ F.ulpExponent y := by
      refine (le_abs_self _).trans ((abs_round_le_two_zpow x).trans ?_)
      rw [← zpow_add₀ (by norm_num)]
      exact zpow_le_zpow_right₀ (by norm_num) (by omega)
    have hstart : (2 : ℚ) ^ (p : ℤ) * 2 ^ F.ulpExponent y ≤ y := by
      have hmin := minExponent_le_ulpExponent (F := F) x
      have hlog : (p : ℤ) + F.ulpExponent y = Int.log 2 |y| := by
        unfold ulpExponent at hlt hmin ⊢
        omega
      rw [← zpow_add₀ (by norm_num), hlog, abs_of_pos (hpos.trans_le h)]
      exact_mod_cast Int.zpow_log_le_self (b := 2) (by norm_num) (hpos.trans_le h)
    refine hend.trans ?_
    have hmono : roundHalfEven ((2 ^ p : ℤ) : ℚ) ≤ roundHalfEven (y / 2 ^ F.ulpExponent y) := by
      refine roundHalfEven_mono ((le_div_iff₀ hy).mpr ?_)
      exact_mod_cast hstart
    rw [roundHalfEven_intCast] at hmono
    refine mul_le_mul_of_nonneg_right ?_ hy.le
    exact_mod_cast hmono

theorem round_le_of_le {x y : ℚ} (hy : F.Representable y) (hy0 : 0 ≤ y) (h : x ≤ y) :
    F.round x ≤ y := by
  rcases le_total 0 x with hx | hx
  · exact (round_mono hx h).trans_eq (round_of_representable hy)
  · exact (round_nonpos hx).trans hy0

/-- **The difference of two numbers of the format is exact**, where the larger is at most twice the
other. -/
theorem Representable.sub {x y : ℚ} (hx : F.Representable x) (hy : F.Representable y)
    (hle : x ≤ y) (htwice : y ≤ 2 * x) : F.Representable (y - x) := by
  have hx0 : 0 ≤ x := by linarith
  rcases hx0.eq_or_lt with rfl | hpos
  · rwa [sub_zero]
  obtain ⟨m, hm⟩ := hx.exists_units
  obtain ⟨n, hn⟩ := hy.exists_units
  have hunit : F.ulpExponent x ≤ F.ulpExponent y :=
    ulpExponent_mono hpos.ne' (by rwa [abs_of_pos hpos, abs_of_pos (hpos.trans_le hle)])
  obtain ⟨d, hd⟩ := Int.le.dest hunit
  have hulp : (0 : ℚ) < 2 ^ F.ulpExponent x := by positivity
  have hdiff : y - x = ((n * 2 ^ d - m : ℤ) : ℚ) * 2 ^ F.ulpExponent x := by
    push_cast
    rw [sub_mul, ← hm, mul_assoc, ← zpow_natCast, ← zpow_add₀ (by norm_num),
      add_comm (d : ℤ), hd, ← hn]
  refine ⟨n * 2 ^ d - m, F.ulpExponent x, ?_, minExponent_le_ulpExponent x, hdiff⟩
  have hlt := abs_lt_two_zpow (F := F) x
  have habs : |((n * 2 ^ d - m : ℤ) : ℚ)| * 2 ^ F.ulpExponent x
      ≤ 2 ^ F.precision * 2 ^ F.ulpExponent x := by
    rw [← abs_of_pos hulp, ← abs_mul, abs_of_pos hulp, ← hdiff, abs_of_nonneg (by linarith),
      ← zpow_natCast, ← zpow_add₀ (by norm_num), add_comm (F.precision : ℤ)]
    rw [abs_of_pos hpos] at hlt
    linarith
  exact_mod_cast le_of_mul_le_mul_right habs hulp

end BinaryFormat

/-- The format of `f32`. -/
def binary32 : BinaryFormat := ⟨24, -149, by norm_num⟩

/-- The format of `f64`. -/
def binary64 : BinaryFormat := ⟨53, -1074, by norm_num⟩
