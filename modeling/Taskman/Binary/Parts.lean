import Taskman.Binary.Within

/-!
# Parts of a byte string

A record inside a longer byte string is read at an offset of the whole; what is read is a number of
the record alone.

* `Bytes.part` : the bytes of a record;
* `Bytes.leAt` : the little-endian number at an offset, of whatever is there;
* `Bytes.leAt_part` : **a number of a part is the number of the whole at the sum of the offsets**;
* `Checked.readLe_eq_leAt`, `Checked.slice_eq_part` : a checked read and a checked slice that stay
  inside.
-/

namespace Bytes

/-- The `len` bytes from `start` on. -/
def part (bs : Bytes) (start len : ℕ) : Bytes := (bs.drop start).take len

/-- The little-endian number of `width` bytes at `offset`. -/
def leAt (bs : Bytes) (offset width : ℕ) : ℕ := ofLe ((bs.drop offset).take width)

variable {bs : Bytes} {start len offset width : ℕ}

theorem length_part (h : start + len ≤ bs.length) : (bs.part start len).length = len := by
  rw [part, List.length_take, List.length_drop]
  omega

theorem leAt_lt (bs : Bytes) (offset width : ℕ) : bs.leAt offset width < 256 ^ width := by
  refine (ofLe_lt _).trans_le (Nat.pow_le_pow_right (by decide) ?_)
  exact List.length_take_le _ _

theorem leAt_part (h : offset + width ≤ len) :
    (bs.part start len).leAt offset width = bs.leAt (start + offset) width := by
  rw [leAt, leAt, part, List.drop_take, List.take_take, List.drop_drop, min_eq_left (by omega)]

theorem leAt_drop (bs : Bytes) (start offset width : ℕ) :
    leAt (bs.drop start) offset width = bs.leAt (start + offset) width := by
  rw [leAt, leAt, List.drop_drop]

theorem leAt_append {xs : Bytes} (h : offset + width ≤ xs.length) (ys : Bytes) :
    leAt (xs ++ ys) offset width = xs.leAt offset width := by
  rw [leAt, leAt, List.drop_append_of_le_length (by omega),
    List.take_append_of_le_length (by rw [List.length_drop]; omega)]

theorem part_part {start' len' : ℕ} (h : start' + len' ≤ len) :
    (bs.part start len).part start' len' = bs.part (start + start') len' := by
  rw [part, part, part, List.drop_take, List.take_take, List.drop_drop, min_eq_left (by omega)]

theorem part_append_append (xs ys zs : Bytes) :
    (xs ++ ys ++ zs).part xs.length ys.length = ys := by
  rw [part, List.append_assoc, List.drop_left, List.take_left]

end Bytes

namespace Checked

variable {ε : Type*} {bound offset width : ℕ} {bs : Bytes}

/-- **A read that stays inside gives the number that is there.** -/
theorem readLe_eq_leAt (h : offset + width ≤ bs.length) (hbound : offset + width < bound) :
    (readLe bound bs offset width : Checked ε ℕ) = .ok (bs.leAt offset width) := by
  rw [readLe_eq_ok]
  refine ⟨hbound, Option.map_eq_some_iff.mpr ⟨_, ?_, rfl⟩⟩
  rw [Bytes.slice?_eq_some_iff]
  refine ⟨Nat.le_add_right _ _, h, ?_⟩
  rw [List.drop_take, Nat.add_sub_cancel_left]

theorem slice_eq_part {start len : ℕ} (h : start + len ≤ bs.length) :
    (slice bs start (start + len) : Checked ε Bytes) = .ok (bs.part start len) := by
  rw [slice_eq_ok, Bytes.slice?_eq_some_iff, List.drop_take, Nat.add_sub_cancel_left]
  exact ⟨Nat.le_add_right _ _, h, rfl⟩

end Checked
