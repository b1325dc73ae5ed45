import Mathlib.Data.Nat.Digits.Lemmas
import Mathlib.Tactic.Ring

/-!
# Byte strings

A byte string is the list of its bytes.  Slicing is checked: a range that does not lie inside the
string gives nothing.

* `Bytes.slice?` : the bytes of a range;
* `Bytes.ofLe`, `Bytes.toLe` : little-endian numbers, **inverse to each other on the numbers of a
  given width** (`Bytes.ofLe_toLe`);
* `Bytes.readLe?` : the little-endian number at an offset.
-/

/-- A byte string, as the list of its bytes. -/
abbrev Bytes := List UInt8

namespace Bytes

/-- The bytes from `start` (inclusive) to `stop` (exclusive), if that range lies inside. -/
def slice? (bs : Bytes) (start stop : ℕ) : Option Bytes :=
  if start ≤ stop ∧ stop ≤ bs.length then some ((bs.take stop).drop start) else none

theorem slice?_eq_some_iff {bs out : Bytes} {start stop : ℕ} :
    slice? bs start stop = some out ↔
      start ≤ stop ∧ stop ≤ bs.length ∧ out = (bs.take stop).drop start := by
  unfold slice?
  split_ifs with h
  · simp [h.1, h.2, eq_comm]
  · simp only [false_iff]
    exact fun h' => h ⟨h'.1, h'.2.1⟩

theorem length_of_slice?_eq_some {bs out : Bytes} {start stop : ℕ}
    (h : slice? bs start stop = some out) : out.length = stop - start := by
  obtain ⟨_, h₂, rfl⟩ := slice?_eq_some_iff.mp h
  rw [List.length_drop, List.length_take, min_eq_left h₂]

theorem slice?_append_append (xs ys zs : Bytes) :
    slice? (xs ++ ys ++ zs) xs.length (xs.length + ys.length) = some ys := by
  rw [slice?_eq_some_iff]
  refine ⟨by omega, by simp, ?_⟩
  rw [← List.length_append, List.take_left, List.drop_left]

/-- A range lies inside just if the string splits around it. -/
theorem slice?_eq_some_iff_append {bs out : Bytes} {start stop : ℕ} :
    slice? bs start stop = some out ↔
      ∃ xs zs : Bytes, bs = xs ++ out ++ zs ∧ xs.length = start ∧ stop = start + out.length := by
  constructor
  · intro h
    have hlen := length_of_slice?_eq_some h
    obtain ⟨h₁, h₂, rfl⟩ := slice?_eq_some_iff.mp h
    have htake : (bs.take stop).take start = bs.take start := by
      rw [List.take_take, min_eq_left h₁]
    refine ⟨bs.take start, bs.drop stop, ?_, List.length_take_of_le (h₁.trans h₂), by omega⟩
    rw [← htake, List.take_append_drop, List.take_append_drop]
  · rintro ⟨xs, zs, rfl, rfl, rfl⟩
    exact slice?_append_append xs out zs

/-! ### Little-endian numbers -/

/-- The number with the given little-endian bytes. -/
def ofLe (bs : Bytes) : ℕ := Nat.ofDigits 256 (bs.map UInt8.toNat)

/-- The `width` little-endian bytes of a number; what does not fit is dropped. -/
def toLe : ℕ → ℕ → Bytes
  | 0, _ => []
  | width + 1, n => UInt8.ofNat n :: toLe width (n / 256)

@[simp] theorem length_toLe (width n : ℕ) : (toLe width n).length = width := by
  induction width generalizing n with
  | zero => rfl
  | succ width ih => rw [toLe, List.length_cons, ih]

theorem ofLe_cons (b : UInt8) (bs : Bytes) : ofLe (b :: bs) = b.toNat + 256 * ofLe bs :=
  Nat.ofDigits_cons

theorem ofLe_lt (bs : Bytes) : ofLe bs < 256 ^ bs.length := by
  have h := Nat.ofDigits_lt_base_pow_length (b := 256) (l := bs.map UInt8.toNat) (by norm_num)
    (by
      intro d hd
      obtain ⟨b, _, rfl⟩ := List.mem_map.mp hd
      exact b.toNat_lt)
  rwa [List.length_map] at h

/-- **Reading back what was written** gives the number, up to what the width drops. -/
theorem ofLe_toLe (width n : ℕ) : ofLe (toLe width n) = n % 256 ^ width := by
  induction width generalizing n with
  | zero => rw [pow_zero, Nat.mod_one]; rfl
  | succ width ih =>
    have hb : (UInt8.ofNat n).toNat = n % 256 := UInt8.toNat_ofNat'
    rw [toLe, ofLe_cons, ih, hb, pow_succ', Nat.mod_mul]

theorem ofLe_toLe_of_lt {width n : ℕ} (h : n < 256 ^ width) : ofLe (toLe width n) = n := by
  rw [ofLe_toLe, Nat.mod_eq_of_lt h]

theorem toLe_ofLe (bs : Bytes) : toLe bs.length bs.ofLe = bs := by
  induction bs with
  | nil => rfl
  | cons b bs ih =>
    have hb : UInt8.ofNat (b.toNat + 256 * ofLe bs) = b := by
      apply UInt8.toNat_inj.mp
      rw [UInt8.toNat_ofNat', Nat.add_mul_mod_self_left, Nat.mod_eq_of_lt b.toNat_lt]
    have hd : (b.toNat + 256 * ofLe bs) / 256 = ofLe bs := by
      have := b.toNat_lt
      omega
    rw [List.length_cons, toLe, ofLe_cons, hb, hd, ih]

theorem ofLe_inj {xs ys : Bytes} (hlen : xs.length = ys.length) : xs.ofLe = ys.ofLe ↔ xs = ys := by
  constructor
  · intro h
    rw [← toLe_ofLe xs, ← toLe_ofLe ys, hlen, h]
  · exact congrArg ofLe

/-- The little-endian number of `width` bytes at `offset`. -/
def readLe? (bs : Bytes) (offset width : ℕ) : Option ℕ :=
  (slice? bs offset (offset + width)).map ofLe

theorem readLe?_lt {bs : Bytes} {offset width n : ℕ} (h : readLe? bs offset width = some n) :
    n < 256 ^ width := by
  obtain ⟨out, hout, rfl⟩ := Option.map_eq_some_iff.mp h
  have hlen := length_of_slice?_eq_some hout
  have hlt := ofLe_lt out
  rwa [hlen, Nat.add_sub_cancel_left] at hlt

end Bytes
