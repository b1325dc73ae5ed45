import Taskman.Binary.Checked

/-!
# Computations within a part of a byte string

A computation on a byte string stays within a prefix of it when it ends the same way, and without a
panic, on the prefix alone: a read past the end of the prefix would be a panic there.

* `Checked.Agree` : two computations end with the same value, with **one rule for each way to put
  computations together**;
* `Checked.readLe` : the little-endian number at an offset;
* `Checked.agree_readLe` : a read within the prefix.
-/

namespace Checked

universe u

variable {ε : Type*} {α β : Type u}

/-- Two computations end with the same value. -/
def Agree (x y : Checked ε α) : Prop := ∃ a, x = .ok a ∧ y = .ok a

theorem agree_ok (a : α) : Agree (.ok a : Checked ε α) (.ok a) := ⟨a, rfl, rfl⟩

/-- **Computations in sequence**: the second ones need only agree on the value of the first. -/
theorem Agree.bind {x y : Checked ε α} {f g : α → Checked ε β} (h : Agree x y)
    (hfg : ∀ a, x = .ok a → Agree (f a) (g a)) : Agree (x >>= f) (y >>= g) := by
  obtain ⟨a, rfl, rfl⟩ := h
  exact hfg a rfl

theorem agree_add {bound a b : ℕ} (h : a + b < bound) :
    Agree (add bound a b : Checked ε ℕ) (add bound a b) :=
  ⟨a + b, if_pos h, if_pos h⟩

theorem agree_mul {bound a b : ℕ} (h : a * b < bound) :
    Agree (mul bound a b : Checked ε ℕ) (mul bound a b) :=
  ⟨a * b, if_pos h, if_pos h⟩

theorem agree_slice {bs : Bytes} {start stop n : ℕ} (h : start ≤ stop) (hn : stop ≤ n)
    (hlen : n ≤ bs.length) :
    Agree (slice (bs.take n) start stop : Checked ε Bytes) (slice bs start stop) := by
  have htake : (bs.take n).length = n := List.length_take_of_le hlen
  refine ⟨(bs.take stop).drop start, ?_, ?_⟩
  · rw [slice_eq_ok, Bytes.slice?_eq_some_iff, htake, List.take_take, min_eq_left hn]
    exact ⟨h, hn, rfl⟩
  · rw [slice_eq_ok, Bytes.slice?_eq_some_iff]
    exact ⟨h, hn.trans hlen, rfl⟩

/-- The little-endian number of `width` bytes at `offset`, where offsets are below `bound`. -/
def readLe (bound : ℕ) (bs : Bytes) (offset width : ℕ) : Checked ε ℕ := do
  let stop ← add bound offset width
  let out ← slice bs offset stop
  .ok out.ofLe

theorem readLe_eq_ok {bound offset width n : ℕ} {bs : Bytes} :
    (readLe bound bs offset width : Checked ε ℕ) = .ok n ↔
      offset + width < bound ∧ bs.readLe? offset width = some n := by
  unfold readLe Bytes.readLe?
  simp only [bind_eq_ok, add_eq_ok, slice_eq_ok, Option.map_eq_some_iff]
  constructor
  · rintro ⟨stop, ⟨hstop, rfl⟩, out, hout, h⟩
    exact ⟨hstop, out, hout, Except.ok.inj h⟩
  · rintro ⟨hstop, out, hout, rfl⟩
    exact ⟨_, ⟨hstop, rfl⟩, out, hout, rfl⟩

theorem readLe_lt {bound offset width n : ℕ} {bs : Bytes}
    (h : (readLe bound bs offset width : Checked ε ℕ) = .ok n) : n < 256 ^ width :=
  Bytes.readLe?_lt (readLe_eq_ok.mp h).2

/-- **A read that ends within the prefix.** -/
theorem agree_readLe {bound offset width n : ℕ} {bs : Bytes} (h : offset + width ≤ n)
    (hlen : n ≤ bs.length) (hbound : n < bound) :
    Agree (readLe bound (bs.take n) offset width : Checked ε ℕ) (readLe bound bs offset width) := by
  refine (agree_add (h.trans_lt hbound)).bind fun stop hstop => ?_
  obtain ⟨-, rfl⟩ := add_eq_ok.mp hstop
  refine (agree_slice (Nat.le_add_right offset width) h hlen).bind fun out _ => ?_
  exact agree_ok out.ofLe

end Checked
