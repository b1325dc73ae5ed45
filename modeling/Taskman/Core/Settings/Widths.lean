import Taskman.Core.Settings.Loaded

/-!
# Widths in the saved text

A width is saved in tenths, as compact decimal text.  In the range that widths may have, rounding to
tenths keeps the range, and a rounded width is saved and read without further loss.

* `roundWidth` : the width that the saved text gives;
* `parse_fmtWidth` : **the text of a width is read as the rounded width**;
* `fmtWidth_roundWidth`, `roundWidth_roundWidth` : rounding once is enough.
-/

namespace Taskman

/-- The tenths of a width, rounded. -/
def tenths (w : F32) : ℤ := roundHalfEven (w.val * 10)

/-- The width that the saved text of `w` gives: the number nearest to the tenths. -/
def roundWidth (w : F32) : F32 := (F32.ofRat (tenths w / 10)).getD w

theorem widthInRange_iff {w : F32} : widthInRange w ↔ 40 ≤ w.val ∧ w.val ≤ 1200 := by
  simp [widthInRange]

variable {w : F32}

theorem tenths_range (h : widthInRange w) : 400 ≤ tenths w ∧ tenths w ≤ 12000 := by
  obtain ⟨hlo, hhi⟩ := widthInRange_iff.mp h
  have herr := abs_le.mp (abs_roundHalfEven_sub_le (w.val * 10))
  have h1 : ((399 : ℤ) : ℚ) < tenths w := by
    push_cast
    unfold tenths
    linarith
  have h2 : (tenths w : ℚ) < ((12001 : ℤ) : ℚ) := by
    push_cast
    unfold tenths
    linarith
  have h1' : 399 < tenths w := by exact_mod_cast h1
  have h2' : tenths w < 12001 := by exact_mod_cast h2
  omega

/-- Below 2048 the numbers of the format lie closer together than `2 ^ (-13)`. -/
theorem abs_round_tenths_sub_le {k : ℤ} (hlo : 400 ≤ k) (hhi : k ≤ 12000) :
    |binary32.round (k / 10) - k / 10| ≤ 1 / 2 ^ 14 := by
  have hlo' : (400 : ℚ) ≤ k := by exact_mod_cast hlo
  have hhi' : (k : ℚ) ≤ 12000 := by exact_mod_cast hhi
  have hpos : (0 : ℚ) < k / 10 := by positivity
  have hlt : |(k : ℚ) / 10| < 2 ^ (11 : ℤ) := by
    rw [abs_of_pos hpos]
    norm_num
    linarith
  have hexp : binary32.ulpExponent (k / 10) ≤ -13 := by
    refine (BinaryFormat.ulpExponent_le hpos.ne' hlt).trans ?_
    decide
  calc |binary32.round (k / 10) - k / 10| ≤ 2 ^ binary32.ulpExponent (k / 10) / 2 :=
        BinaryFormat.abs_round_sub_le _
    _ ≤ 2 ^ (-13 : ℤ) / 2 := by
        have := zpow_le_zpow_right₀ (a := (2 : ℚ)) (by norm_num) hexp
        linarith
    _ = 1 / 2 ^ 14 := by norm_num

/-- Rounding a number of tenths does not leave the range, whose ends are numbers of the format. -/
theorem round_tenths_range {k : ℤ} (hlo : 400 ≤ k) (hhi : k ≤ 12000) :
    40 ≤ binary32.round (k / 10) ∧ binary32.round (k / 10) ≤ 1200 := by
  have herr := abs_le.mp (abs_round_tenths_sub_le hlo hhi)
  constructor
  · rcases eq_or_lt_of_le hlo with rfl | hlt
    · have h40 : binary32.round (40 : ℕ) = (40 : ℕ) := (F32.ofNat 40 (by norm_num)).round_val
      have hq : ((400 : ℤ) : ℚ) / 10 = (40 : ℕ) := by norm_num
      rw [hq, h40]
      norm_num
    · have hk : ((401 : ℤ) : ℚ) ≤ k := by exact_mod_cast hlt
      push_cast at hk
      linarith [herr.1]
  · rcases eq_or_lt_of_le hhi with rfl | hlt
    · have h1200 : binary32.round (1200 : ℕ) = (1200 : ℕ) :=
        (F32.ofNat 1200 (by norm_num)).round_val
      have hq : ((12000 : ℤ) : ℚ) / 10 = (1200 : ℕ) := by norm_num
      rw [hq, h1200]
      norm_num
    · have hk : (k : ℚ) ≤ ((11999 : ℤ) : ℚ) := by exact_mod_cast Int.le_sub_one_of_lt hlt
      push_cast at hk
      linarith [herr.2]

theorem ofRat_tenths (h : widthInRange w) : F32.ofRat (tenths w / 10) = some (roundWidth w) := by
  obtain ⟨hlo, hhi⟩ := tenths_range h
  obtain ⟨hmin, hmax⟩ := round_tenths_range hlo hhi
  have hlt : |binary32.round (tenths w / 10)| < 2 ^ 128 := by
    rw [abs_of_pos (by linarith)]
    exact lt_of_le_of_lt hmax (by norm_num)
  unfold roundWidth
  rw [F32.ofRat, dif_pos hlt, Option.getD_some]

theorem val_roundWidth (h : widthInRange w) :
    (roundWidth w).val = binary32.round (tenths w / 10) := by
  have hof := ofRat_tenths h
  unfold F32.ofRat at hof
  split_ifs at hof
  rw [← Option.some.inj hof]

theorem widthInRange_roundWidth (h : widthInRange w) : widthInRange (roundWidth w) := by
  obtain ⟨hlo, hhi⟩ := tenths_range h
  rw [widthInRange_iff, val_roundWidth h]
  exact round_tenths_range hlo hhi

/-- Rounding is to well below a twentieth, so the tenths stay what they are. -/
theorem tenths_roundWidth (h : widthInRange w) : tenths (roundWidth w) = tenths w := by
  obtain ⟨hlo, hhi⟩ := tenths_range h
  have herr := abs_le.mp (abs_round_tenths_sub_le hlo hhi)
  rw [tenths, val_roundWidth h]
  refine roundHalfEven_eq_of_abs_lt (abs_lt.mpr ⟨?_, ?_⟩)
  · linarith [herr.1]
  · linarith [herr.2]

theorem roundWidth_roundWidth (h : widthInRange w) : roundWidth (roundWidth w) = roundWidth w := by
  have hof := ofRat_tenths (widthInRange_roundWidth h)
  rw [tenths_roundWidth h, ofRat_tenths h] at hof
  exact (Option.some.inj hof).symm

/-! ### The text of a width -/

theorem fixed_one (h : widthInRange w) : w.fixed 1 = Text.decimal (tenths w).toNat 1 := by
  have hpos : 0 < w.val := by linarith [(widthInRange_iff.mp h).1]
  rw [F32.fixed, F32.signText, if_neg hpos.not_gt, abs_of_pos hpos, pow_one]
  rfl

/-- Tenths are text with one digit after the point, which is dropped when it is zero. -/
theorem fmtWidth_eq (h : widthInRange w) :
    fmtWidth w = Text.decimal (tenths w).toNat 1 ∨
      (tenths w).toNat % 10 = 0 ∧ fmtWidth w = Text.decimal ((tenths w).toNat / 10) 0 := by
  unfold fmtWidth
  dsimp only
  rw [fixed_one h]
  generalize (tenths w).toNat = k
  cases hsuf : Text.stripSuffix (Text.decimal k 1) ".0".toList with
  | none => exact Or.inl rfl
  | some r =>
    right
    rw [Text.stripSuffix_eq_some_iff] at hsuf
    have hlen : (Text.paddedDigits 1 (k % 10)).length = 1 :=
      Text.length_paddedDigits (by norm_num) (by omega)
    have hparts : Text.digits (k / 10) ++ '.' :: Text.paddedDigits 1 (k % 10) =
        r ++ ".0".toList := by
      rw [← hsuf, Text.decimal, if_neg (by norm_num), pow_one]
    obtain ⟨hfront, hback⟩ := List.append_inj' hparts (by simp [hlen])
    have hzero : Text.paddedDigits 1 (k % 10) = ['0'] := by simpa using hback
    refine ⟨?_, ?_⟩
    · rw [← Text.digitsValue_paddedDigits 1 (k % 10), hzero]
      rfl
    · rw [Option.getD_some, ← hfront, Text.decimal, if_pos rfl]

/-- **The text of a width is read as the rounded width.** -/
theorem parse_fmtWidth (h : widthInRange w) : F32.parse (fmtWidth w) = some (roundWidth w) := by
  obtain ⟨hlo, -⟩ := tenths_range h
  obtain ⟨k, hk⟩ := Int.eq_ofNat_of_zero_le (by omega : 0 ≤ tenths w)
  have hof := ofRat_tenths h
  rw [hk] at hof
  rcases fmtWidth_eq h with heq | ⟨hmod, heq⟩
  · rw [heq, F32.parse, Text.parseDecimal_decimal, Option.bind_some, hk]
    simpa using hof
  · rw [hk, Int.toNat_natCast] at hmod
    obtain ⟨j, rfl⟩ := Nat.dvd_of_mod_eq_zero hmod
    have hdiv : (((10 * j : ℕ) : ℤ) : ℚ) / 10 = (10 * j / 10 : ℕ) / 10 ^ 0 := by
      rw [Nat.mul_div_cancel_left j (by norm_num)]
      push_cast
      ring
    rw [heq, F32.parse, Text.parseDecimal_decimal, Option.bind_some, hk, Int.toNat_natCast,
      ← hdiv, hof]

theorem mem_fmtWidth (h : widthInRange w) {c : Char} (hc : c ∈ fmtWidth w) :
    c.isDigit ∨ c = '.' := by
  rcases fmtWidth_eq h with heq | ⟨-, heq⟩
  · exact Text.mem_decimal (heq ▸ hc)
  · exact Text.mem_decimal (heq ▸ hc)

theorem fmtWidth_roundWidth (h : widthInRange w) : fmtWidth (roundWidth w) = fmtWidth w := by
  unfold fmtWidth
  rw [fixed_one h, fixed_one (widthInRange_roundWidth h), tenths_roundWidth h]

end Taskman
