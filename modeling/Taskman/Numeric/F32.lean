import Taskman.Numeric.Rounding
import Taskman.Text.Decimal
import Mathlib.Tactic.NormNum

/-!
# Single-precision numbers and their text

The finite `f32`, as the exact rationals the format holds (the two zeros are one here), how they
are read from decimal text and how they are printed.

* `F32.parse` : nearest number to a decimal text;
* `F32.display` : the shortest decimal text that reads back as the number;
* `F32.fixed` : a fixed number of digits after the point;
* `F32.parse_display` : **what `display` prints is read back exactly**.
-/

/-- A finite `f32`. -/
@[ext]
structure F32 where
  val : ℚ
  round_val : binary32.round val = val
  abs_val_lt : |val| < 2 ^ 128

namespace F32

instance : DecidableEq F32 := fun x y => decidable_of_iff (x.val = y.val) F32.ext_iff.symm

/-- The nearest finite number, unless that is an infinity. -/
def ofRat (x : ℚ) : Option F32 :=
  if h : |binary32.round x| < 2 ^ 128 then
    some ⟨binary32.round x, BinaryFormat.round_round x, h⟩
  else none

/-- A small whole number. -/
def ofNat (n : ℕ) (h : n ≤ 2 ^ 24) : F32 where
  val := n
  round_val := by
    have hn : |(n : ℤ)| ≤ 2 ^ binary32.precision := by
      rw [Nat.abs_cast]
      exact_mod_cast h
    exact_mod_cast BinaryFormat.round_of_representable
      (BinaryFormat.representable_intCast (F := binary32) (by decide) hn)
  abs_val_lt := by
    have hq : (n : ℚ) ≤ 2 ^ 24 := by exact_mod_cast h
    rw [Nat.abs_cast]
    exact lt_of_le_of_lt hq (by norm_num)

/-- `f32::clamp`. -/
def clamp (x lo hi : F32) : F32 :=
  if x.val < lo.val then lo else if hi.val < x.val then hi else x

/-- What was clamped once is in the range. -/
theorem clamp_clamp (x : F32) {lo hi : F32} (h : lo.val ≤ hi.val) :
    (x.clamp lo hi).clamp lo hi = x.clamp lo hi := by
  by_cases hlo : x.val < lo.val
  · have hx : x.clamp lo hi = lo := if_pos hlo
    rw [hx, clamp, if_neg (lt_irrefl _), if_neg (not_lt.mpr h)]
  · by_cases hhi : hi.val < x.val
    · have hx : x.clamp lo hi = hi := by rw [clamp, if_neg hlo, if_pos hhi]
      rw [hx, clamp, if_neg (not_lt.mpr h), if_neg (lt_irrefl _)]
    · have hx : x.clamp lo hi = x := by rw [clamp, if_neg hlo, if_neg hhi]
      rw [hx, hx]

@[simp]
theorem ofRat_val (x : F32) : ofRat x.val = some x := by
  have h : |binary32.round x.val| < 2 ^ 128 := by
    rw [x.round_val]
    exact x.abs_val_lt
  rw [ofRat, dif_pos h, Option.some.injEq]
  exact F32.ext x.round_val

theorem ofRat_of_round_eq {q : ℚ} {x : F32} (h : binary32.round q = x.val) : ofRat q = some x := by
  rw [← ofRat_val x, ofRat, ofRat]
  simp only [h, x.round_val]

/-! ### Reading -/

/-- `str::parse::<f32>`, of which only the finite results are used. -/
def parse (t : Text) : Option F32 := (Text.parseDecimal t).bind ofRat

/-! ### Printing -/

/-- A value with the sign of `x`. -/
def withSignOf (x : F32) (v : ℚ) : ℚ := if x.val < 0 then -v else v

/-- A text with the sign of `x`. -/
def signText (x : F32) (t : Text) : Text := if x.val < 0 then '-' :: t else t

/-- The number `d` of units `10 ^ e` reads back as `x`. -/
def readsBack (x : F32) (d : ℕ) (e : ℤ) : Bool :=
  binary32.round (x.withSignOf (d * 10 ^ e)) = x.val

/-- A whole number of units `10 ^ e` that reads back as `x`, the closer one of two. -/
def shortestAt (x : F32) (e : ℤ) : Option (ℕ × ℤ) :=
  let scaled := |x.val| / 10 ^ e
  let lo := ⌊scaled⌋₊
  let hi := lo + 1
  let up := decide (hi - scaled ≤ scaled - lo)
  if readsBack x hi e && (up || !readsBack x lo e) then some (hi, e)
  else if readsBack x lo e then some (lo, e)
  else none

/-- Decimal exponents, the coarsest unit first. -/
def exponents : List ℤ := (List.range 188).map fun i => 38 - i

/-- The fewest digits that read back as `x`, and their unit. -/
def shortest (x : F32) : ℕ × ℤ := (exponents.findSome? x.shortestAt).getD (0, 0)

/-- `d` units of `10 ^ e` in positional notation. -/
def unitsText (d : ℕ) (e : ℤ) : Text :=
  if 0 ≤ e then Text.decimal (d * 10 ^ e.toNat) 0 else Text.decimal d (-e).toNat

/-- `format!("{x}")`. -/
def display (x : F32) : Text := x.signText (unitsText x.shortest.1 x.shortest.2)

/-- `format!("{x:.p}")`. -/
def fixed (x : F32) (p : ℕ) : Text :=
  x.signText (Text.decimal (roundHalfEven (|x.val| * 10 ^ p)).toNat p)

/-! ### What is printed is read back -/

theorem withSignOf_abs (x : F32) : x.withSignOf |x.val| = x.val := by
  unfold withSignOf
  split_ifs with h
  · rw [abs_of_neg h, neg_neg]
  · exact abs_of_nonneg (not_lt.mp h)

theorem parse_signText {x : F32} {m p : ℕ} :
    parse (x.signText (Text.decimal m p)) = ofRat (x.withSignOf (m / 10 ^ p)) := by
  unfold parse signText withSignOf
  split_ifs
  · rw [Text.parseDecimal_neg_decimal, Option.bind_some]
  · rw [Text.parseDecimal_decimal, Option.bind_some]

theorem parse_signText_unitsText (x : F32) (d : ℕ) (e : ℤ) :
    parse (x.signText (unitsText d e)) = ofRat (x.withSignOf (d * 10 ^ e)) := by
  unfold unitsText
  split_ifs with h
  · obtain ⟨n, rfl⟩ := Int.eq_ofNat_of_zero_le h
    rw [parse_signText]
    simp
  · obtain ⟨n, hn⟩ := Int.eq_ofNat_of_zero_le (by omega : 0 ≤ -e)
    obtain rfl : e = -n := by omega
    rw [parse_signText]
    simp [div_eq_mul_inv]

theorem readsBack_of_shortestAt {x : F32} {e : ℤ} {p : ℕ × ℤ} (h : x.shortestAt e = some p) :
    x.readsBack p.1 p.2 := by
  unfold shortestAt at h
  dsimp only at h
  split_ifs at h with hhi hlo
  · obtain rfl := Option.some.inj h
    exact (Bool.and_eq_true_iff.mp hhi).1
  · obtain rfl := Option.some.inj h
    exact hlo

/-- In units of the finest exponent every number is whole. -/
theorem exists_finest_units (x : F32) : ∃ n : ℕ, |x.val| = n * 10 ^ (-149 : ℤ) := by
  obtain ⟨k, e, -, he, hx⟩ := BinaryFormat.round_eq_self_iff.mp x.round_val
  obtain ⟨d, hd⟩ := Int.le.dest he
  refine ⟨k.natAbs * 2 ^ d * 5 ^ 149, ?_⟩
  have hmin : binary32.minExponent = -149 := rfl
  have hfive : ((5 : ℚ) ^ 149) * 10 ^ (-149 : ℤ) = 2 ^ (-149 : ℤ) := by norm_num
  rw [hx, ← hd, hmin, abs_mul, abs_of_pos (by positivity : (0 : ℚ) < 2 ^ (-149 + (d : ℤ))),
    zpow_add₀ (by norm_num), zpow_natCast, ← hfive]
  push_cast
  rw [Nat.cast_natAbs, Int.cast_abs]
  ring

theorem readsBack_shortest (x : F32) : x.readsBack x.shortest.1 x.shortest.2 := by
  unfold shortest
  cases h : exponents.findSome? x.shortestAt with
  | some p =>
    obtain ⟨e, -, he⟩ := List.exists_of_findSome?_eq_some h
    exact readsBack_of_shortestAt he
  | none =>
    -- The search does not come back empty: the finest unit reads back.
    have hnone := List.findSome?_eq_none_iff.mp h (-149) (by decide)
    obtain ⟨n, hn⟩ := x.exists_finest_units
    have hfloor : ⌊|x.val| / 10 ^ (-149 : ℤ)⌋₊ = n := by
      rw [hn, mul_div_cancel_right₀ _ (by positivity), Nat.floor_natCast]
    have hback : x.readsBack n (-149) = true := by
      unfold readsBack
      rw [← hn, withSignOf_abs, x.round_val]
      exact decide_eq_true rfl
    unfold shortestAt at hnone
    dsimp only at hnone
    rw [hfloor, if_pos hback] at hnone
    split_ifs at hnone

/-- **What `display` prints is read back exactly.** -/
@[simp]
theorem parse_display (x : F32) : parse x.display = some x := by
  rw [display, parse_signText_unitsText]
  exact ofRat_of_round_eq (of_decide_eq_true x.readsBack_shortest)

end F32
