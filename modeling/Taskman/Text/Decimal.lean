import Taskman.Text.Basic
import Mathlib.Algebra.Order.Field.Basic
import Mathlib.Data.Rat.Defs
import Mathlib.Tactic.FieldSimp
import Mathlib.Tactic.Ring

/-!
# Decimal numbers as text

Unsigned integers and decimal fractions in positional notation, and the reader of decimal numbers
with an optional sign, fraction and exponent.

* `Text.digits`, `Text.parseNat` : unsigned integers;
* `Text.decimal` : `m / 10 ^ p` with `p` digits after the point;
* `Text.parseDecimal_decimal` : **a printed decimal fraction is read back as its exact value**.
-/

namespace Text

/-! ### Digits -/

/-- The decimal digits of a number, without leading zeros. -/
abbrev digits (n : ℕ) : Text := Nat.toDigits 10 n

/-- Value of a run of decimal digits. -/
abbrev digitsValue (t : Text) : ℕ := Nat.ofDigitChars 10 t 0

/-- At least `width` digits, filled up with zeros in front. -/
def paddedDigits (width n : ℕ) : Text :=
  List.replicate (width - (digits n).length) '0' ++ digits n

/-- The digits in front, and what follows. -/
def spanDigits (t : Text) : Text × Text := (t.takeWhile Char.isDigit, t.dropWhile Char.isDigit)

theorem isDigit_of_mem_digits {n : ℕ} {c : Char} (h : c ∈ digits n) : c.isDigit :=
  Nat.isDigit_of_mem_toDigits (by norm_num) (by norm_num) h

theorem isDigit_of_mem_paddedDigits {w n : ℕ} {c : Char} (h : c ∈ paddedDigits w n) :
    c.isDigit := by
  rcases List.mem_append.mp h with h | h
  · rw [List.eq_of_mem_replicate h]
    rfl
  · exact isDigit_of_mem_digits h

theorem exists_digits_cons (n : ℕ) : ∃ c d, digits n = c :: d ∧ c.isDigit := by
  obtain ⟨c, d, h⟩ := List.exists_cons_of_ne_nil (Nat.toDigits_ne_nil (n := n) (b := 10))
  have hc : c ∈ digits n := by
    rw [digits, h]
    exact List.mem_cons_self
  exact ⟨c, d, h, isDigit_of_mem_digits hc⟩

theorem length_paddedDigits {w n : ℕ} (hw : 0 < w) (h : n < 10 ^ w) :
    (paddedDigits w n).length = w := by
  have hle : (digits n).length ≤ w := (Nat.length_toDigits_le_iff (by norm_num) hw).mpr h
  rw [paddedDigits, List.length_append, List.length_replicate]
  omega

theorem digitsValue_append (s t : Text) :
    digitsValue (s ++ t) = 10 ^ t.length * digitsValue s + digitsValue t := by
  rw [digitsValue, Nat.ofDigitChars_append, Nat.ofDigitChars_eq_ofDigitChars_zero]

@[simp]
theorem digitsValue_paddedDigits (w n : ℕ) : digitsValue (paddedDigits w n) = n := by
  rw [paddedDigits, digitsValue, Nat.ofDigitChars_append, Nat.ofDigitChars_replicate_zero,
    Nat.mul_zero, Nat.ofDigitChars_ten_toDigits]

theorem digits_injective : Function.Injective digits := by
  intro m n h
  have hval := congrArg digitsValue h
  rwa [digitsValue, digitsValue, Nat.ofDigitChars_ten_toDigits,
    Nat.ofDigitChars_ten_toDigits] at hval

theorem spanDigits_append {d t : Text} (hd : ∀ c ∈ d, c.isDigit)
    (ht : ∀ c ∈ t.head?, c.isDigit = false) : spanDigits (d ++ t) = (d, t) := by
  have hfront : t.takeWhile Char.isDigit = [] ∧ t.dropWhile Char.isDigit = t := by
    cases t with
    | nil => exact ⟨rfl, rfl⟩
    | cons c t => simp [ht c rfl]
  rw [spanDigits, List.takeWhile_append_of_pos hd, List.dropWhile_append_of_pos hd, hfront.1,
    hfront.2, List.append_nil]

/-! ### Unsigned integers -/

/-- What follows an optional plus sign. -/
def stripPlus : Text → Text
  | '+' :: t => t
  | t => t

/-- Reader of an unsigned integer below `bound`, with an optional plus sign. -/
def parseNat (bound : ℕ) (t : Text) : Option ℕ :=
  let d := stripPlus t
  if d ≠ [] ∧ d.all Char.isDigit ∧ digitsValue d < bound then some (digitsValue d) else none

/-! ### Decimal fractions -/

/-- `m / 10 ^ p` in positional notation, with `p` digits after the point. -/
def decimal (m p : ℕ) : Text :=
  if p = 0 then digits m else digits (m / 10 ^ p) ++ '.' :: paddedDigits p (m % 10 ^ p)

/-- A minus sign in front, and what follows the sign. -/
def splitSign : Text → Bool × Text
  | '-' :: t => (true, t)
  | '+' :: t => (false, t)
  | t => (false, t)

/-- Reader of what may follow the fraction: nothing, or an exponent. -/
def parseExponent : Text → Option ℤ
  | [] => some 0
  | c :: t =>
    if c = 'e' ∨ c = 'E' then
      let (neg, d) := splitSign t
      if d ≠ [] ∧ d.all Char.isDigit then
        some (if neg then -(digitsValue d : ℤ) else digitsValue d)
      else none
    else none

/-- Reader of an unsigned decimal number: digits with a point among them or around them, at least
one of them, and an exponent.  The value is exact. -/
def parseUnsigned (t : Text) : Option ℚ :=
  let (whole, t) := spanDigits t
  let (frac, t) := match t with
    | '.' :: t => spanDigits t
    | t => ([], t)
  if whole = [] ∧ frac = [] then none
  else
    (parseExponent t).map fun e : ℤ =>
      (digitsValue (whole ++ frac) : ℚ) * 10 ^ (e - frac.length)

/-- Reader of a decimal number. -/
def parseDecimal (t : Text) : Option ℚ :=
  let (neg, t) := splitSign t
  (parseUnsigned t).map fun x => if neg then -x else x

theorem mem_decimal {m p : ℕ} {c : Char} (h : c ∈ decimal m p) : c.isDigit ∨ c = '.' := by
  unfold decimal at h
  split_ifs at h
  · exact Or.inl (isDigit_of_mem_digits h)
  · rcases List.mem_append.mp h with h | h
    · exact Or.inl (isDigit_of_mem_digits h)
    · rcases List.mem_cons.mp h with rfl | h
      · exact Or.inr rfl
      · exact Or.inl (isDigit_of_mem_paddedDigits h)

theorem splitSign_of_isDigit {c : Char} (hc : c.isDigit) (t : Text) :
    splitSign (c :: t) = (false, c :: t) := by
  rw [splitSign]
  · rintro u ⟨⟩
    exact absurd hc (by decide)
  · rintro u ⟨⟩
    exact absurd hc (by decide)

theorem stripPlus_of_isDigit {c : Char} (hc : c.isDigit) (t : Text) :
    stripPlus (c :: t) = c :: t := by
  rw [stripPlus]
  rintro u ⟨⟩
  exact absurd hc (by decide)

@[simp]
theorem parseNat_digits {bound n : ℕ} (h : n < bound) : parseNat bound (digits n) = some n := by
  obtain ⟨c, d, hd, hc⟩ := exists_digits_cons n
  have hsign : stripPlus (digits n) = digits n := by
    rw [hd]
    exact stripPlus_of_isDigit hc d
  have hall : (digits n).all Char.isDigit = true :=
    List.all_eq_true.mpr fun c hc => isDigit_of_mem_digits hc
  have hval : digitsValue (digits n) = n := Nat.ofDigitChars_ten_toDigits
  rw [parseNat, hsign, hval, if_pos ⟨Nat.toDigits_ne_nil, hall, h⟩]

theorem parseUnsigned_decimal (m p : ℕ) :
    parseUnsigned (decimal m p) = some (m / 10 ^ p : ℚ) := by
  unfold decimal
  split_ifs with hp
  · subst hp
    have hspan := spanDigits_append (d := digits m) (t := []) (fun c => isDigit_of_mem_digits)
      (by simp)
    rw [List.append_nil] at hspan
    simp [parseUnsigned, hspan, parseExponent, Nat.toDigits_ne_nil]
  · have hspan := spanDigits_append (d := digits (m / 10 ^ p))
      (t := '.' :: paddedDigits p (m % 10 ^ p)) (fun c => isDigit_of_mem_digits) (by simp)
    have hfrac := spanDigits_append (d := paddedDigits p (m % 10 ^ p)) (t := [])
      (fun c => isDigit_of_mem_paddedDigits) (by simp)
    rw [List.append_nil] at hfrac
    have hlen : (paddedDigits p (m % 10 ^ p)).length = p :=
      length_paddedDigits (Nat.pos_of_ne_zero hp) (Nat.mod_lt _ (pow_pos (by norm_num) p))
    have hval : digitsValue (digits (m / 10 ^ p) ++ paddedDigits p (m % 10 ^ p)) = m := by
      rw [digitsValue_append, hlen, digitsValue_paddedDigits, digitsValue,
        Nat.ofDigitChars_ten_toDigits]
      exact Nat.div_add_mod m (10 ^ p)
    simp only [parseUnsigned, hspan, hfrac, parseExponent, hlen, hval]
    rw [if_neg (by simp [Nat.toDigits_ne_nil])]
    simp [div_eq_mul_inv]

theorem exists_decimal_cons (m p : ℕ) : ∃ c t, decimal m p = c :: t ∧ c.isDigit := by
  unfold decimal
  split_ifs
  · exact exists_digits_cons m
  · obtain ⟨c, d, h, hc⟩ := exists_digits_cons (m / 10 ^ p)
    exact ⟨c, _, by rw [h, List.cons_append], hc⟩

/-- **A printed decimal fraction is read back as its exact value.** -/
theorem parseDecimal_decimal (m p : ℕ) : parseDecimal (decimal m p) = some (m / 10 ^ p : ℚ) := by
  obtain ⟨c, t, h, hc⟩ := exists_decimal_cons m p
  have hu := parseUnsigned_decimal m p
  rw [h] at hu ⊢
  simp [parseDecimal, splitSign_of_isDigit hc, hu]

theorem parseDecimal_neg_decimal (m p : ℕ) :
    parseDecimal ('-' :: decimal m p) = some (-(m / 10 ^ p : ℚ)) := by
  simp [parseDecimal, splitSign, parseUnsigned_decimal]

end Text
