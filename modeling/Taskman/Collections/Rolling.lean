import Mathlib.Data.List.Infix
import Mathlib.Order.Lattice

/-!
# Buffers of a bounded number of elements

A buffer drops its oldest element for a new one when it is full.  When its capacity changes, it is
cut to the newest elements that fit.

* `push cap buffer x` : a new element;
* `Keeps cap all fresh buffer` : what the buffer holds of all elements ever pushed, and of those
  pushed since the capacity last changed (`Keeps.nil`, `Keeps.push`, `Keeps.resize`);
* `Keeps.exists_le_iff` : **the buffer reaches back to a bound exactly when fewer elements than it
  can hold lie beyond the bound**, for elements in order;
* `Keeps.mem_of_le` : **and then it holds all elements from the bound on**;
* `mul_countP_lt` : how many elements lie beyond a bound when they are spaced;
* `scanBack p l n` : the scan for the elements with a property at the end of a list
  (`key_pred_scanBack_le`, `mem_drop_of_le`).
-/

namespace Taskman

namespace Rolling

variable {α β : Type*} {cap : ℕ} {all fresh buffer : List α} {x : α}

/-- A new element, for the oldest one if the buffer is full. -/
def push (cap : ℕ) (buffer : List α) (x : α) : List α :=
  (if cap ≤ buffer.length then buffer.tail else buffer) ++ [x]

theorem push_of_full (h : cap ≤ buffer.length) (x : α) :
    push cap buffer x = buffer.tail ++ [x] := by
  rw [push, if_pos h]

theorem push_of_room (h : buffer.length < cap) (x : α) : push cap buffer x = buffer ++ [x] := by
  rw [push, if_neg (Nat.not_le.mpr h)]

/-- What a buffer holds of all elements ever pushed and of those pushed under its capacity. -/
structure Keeps (cap : ℕ) (all fresh buffer : List α) : Prop where
  suffix : buffer <:+ all
  length_le : buffer.length ≤ cap
  full_or_fresh : buffer.length = cap ∨ fresh <:+ buffer
  ne_nil : all ≠ [] → buffer ≠ []

theorem Keeps.nil (cap : ℕ) : Keeps cap ([] : List α) [] [] where
  suffix := List.suffix_rfl
  length_le := Nat.zero_le cap
  full_or_fresh := Or.inr List.suffix_rfl
  ne_nil := id

theorem Keeps.push (h : Keeps cap all fresh buffer) (hcap : 0 < cap) (x : α) :
    Keeps cap (all ++ [x]) (fresh ++ [x]) (push cap buffer x) := by
  have hsuffix : ∀ {l m : List α}, l <:+ m → l ++ [x] <:+ m ++ [x] := by
    rintro l _ ⟨pre, rfl⟩
    exact ⟨pre, (List.append_assoc pre l [x]).symm⟩
  rcases Nat.lt_or_ge buffer.length cap with hroom | hfull
  · rw [push_of_room hroom]
    refine ⟨hsuffix h.suffix, List.length_append.trans_le hroom, ?_, by simp⟩
    rcases h.full_or_fresh with hlen | hfresh
    · omega
    · exact Or.inr (hsuffix hfresh)
  · have hlen : buffer.length = cap := le_antisymm h.length_le hfull
    have hlen' : (buffer.tail ++ [x]).length = cap := by
      rw [List.length_append, List.length_tail, List.length_singleton, hlen]
      omega
    rw [push_of_full hfull]
    exact ⟨hsuffix ((List.tail_suffix buffer).trans h.suffix), hlen'.le, Or.inl hlen', by simp⟩

/-- A buffer with another capacity is cut to the elements that fit. -/
theorem Keeps.resize (h : Keeps cap all fresh buffer) {cap' : ℕ} (hcap' : 0 < cap') :
    Keeps cap' all [] (buffer.drop (buffer.length - cap')) where
  suffix := (List.drop_suffix _ _).trans h.suffix
  length_le := by rw [List.length_drop]; omega
  full_or_fresh := Or.inr List.nil_suffix
  ne_nil hall hnil := by
    have hne : 0 < buffer.length := List.length_pos_iff.mpr (h.ne_nil hall)
    have hzero := congrArg List.length hnil
    rw [List.length_drop, List.length_nil] at hzero
    omega

/-! ### Elements in order -/

section Order

variable [LinearOrder β] {key : α → β} {bound : β}

/-- **The buffer reaches back to a bound exactly when fewer elements than it can hold lie beyond
the bound.** -/
theorem Keeps.exists_le_iff (key : α → β) (h : Keeps cap all fresh buffer)
    (hsorted : all.Pairwise fun a b => key a < key b) (hfresh : ∃ x ∈ fresh, key x ≤ bound) :
    (∃ x ∈ buffer, key x ≤ bound) ↔ all.countP (fun x => bound < key x) < cap := by
  obtain ⟨pre, rfl⟩ := h.suffix
  constructor
  · rintro ⟨x, hx, hle⟩
    have hpre : pre.countP (fun y => bound < key y) = 0 := by
      refine List.countP_eq_zero.mpr fun y hy => ?_
      have hyx := (List.pairwise_append.mp hsorted).2.2 y hy x hx
      simpa using (hyx.trans_le hle).le
    have hbuffer : buffer.countP (fun y => bound < key y) < buffer.length := by
      refine lt_of_le_of_ne List.countP_le_length fun heq => ?_
      have hlt := List.countP_eq_length.mp heq x hx
      exact absurd hle (not_le.mpr (of_decide_eq_true hlt))
    rw [List.countP_append, hpre, Nat.zero_add]
    exact hbuffer.trans_le h.length_le
  · intro hcount
    rcases h.full_or_fresh with hfull | hkept
    · -- a full buffer cannot hold elements beyond the bound only
      by_contra hnone
      push Not at hnone
      have hall : buffer.countP (fun y => bound < key y) = buffer.length :=
        List.countP_eq_length.mpr fun y hy => decide_eq_true (hnone y hy)
      rw [List.countP_append, hall] at hcount
      omega
    · obtain ⟨x, hx, hle⟩ := hfresh
      exact ⟨x, hkept.subset hx, hle⟩

/-- A buffer that reaches back to a bound holds all elements from the bound on. -/
theorem Keeps.mem_of_le (key : α → β) (h : Keeps cap all fresh buffer)
    (hsorted : all.Pairwise fun a b => key a < key b) (hreach : ∃ x ∈ buffer, key x ≤ bound)
    {y : α} (hy : y ∈ all) (hle : bound ≤ key y) : y ∈ buffer := by
  obtain ⟨pre, rfl⟩ := h.suffix
  obtain ⟨x, hx, hxle⟩ := hreach
  rcases List.mem_append.mp hy with hpre | hbuffer
  · have hlt := (List.pairwise_append.mp hsorted).2.2 y hpre x hx
    exact absurd (hlt.trans_le hxle) (not_lt.mpr hle)
  · exact hbuffer

end Order

/-- **Elements at least `d` apart**: those beyond a bound take up the room up to the last. -/
theorem mul_countP_lt {l : List α} {key : α → ℕ} (d bound : ℕ) {top : ℕ} (hd : 0 < d)
    (hspaced : l.Pairwise fun a b => key a + d ≤ key b) (htop : ∀ x ∈ l, key x ≤ top) :
    d * l.countP (fun x => bound < key x) < top - bound + d := by
  induction l using List.reverseRecOn generalizing top with
  | nil => exact Nat.lt_add_left _ hd
  | append_singleton l x ih =>
    obtain ⟨hinit, -, hlast⟩ := List.pairwise_append.mp hspaced
    have hx : key x ≤ top := htop x (by simp)
    have hbefore : ∀ y ∈ l, key y ≤ key x - d := fun y hy => by
      have hyx := hlast y hy x (List.mem_singleton_self x)
      omega
    have hcount := ih hinit hbefore
    rw [List.countP_append, List.countP_singleton]
    split
    · rename_i hbound
      have hbound : bound < key x := of_decide_eq_true hbound
      rw [Nat.mul_add, Nat.mul_one]
      rcases Nat.lt_or_ge bound (key x - d) with hlt | hge
      · omega
      · -- the elements before it are not beyond the bound
        have hzero : l.countP (fun y => bound < key y) = 0 :=
          List.countP_eq_zero.mpr fun y hy => by simpa using (hbefore y hy).trans hge
        rw [hzero]
        omega
    · rw [Nat.add_zero]
      omega

/-! ### Scanning back from the end -/

/-- The first of the elements with a property that lie directly before position `n`. -/
def scanBack (p : α → Bool) (l : List α) : ℕ → ℕ
  | 0 => 0
  | n + 1 => if l[n]?.any p then scanBack p l n else n + 1

theorem scanBack_le (p : α → Bool) (l : List α) (n : ℕ) : scanBack p l n ≤ n := by
  induction n with
  | zero => rfl
  | succ n ih =>
    rw [scanBack]
    split
    · exact ih.trans (Nat.le_succ n)
    · rfl

/-- What the scan passes has the property. -/
theorem of_scanBack_le {p : α → Bool} {l : List α} {n i : ℕ} (hi : scanBack p l n ≤ i)
    (hn : i < n) : l[i]?.any p := by
  induction n with
  | zero => omega
  | succ n ih =>
    rw [scanBack] at hi
    split at hi
    · rename_i hany
      rcases Nat.lt_succ_iff_lt_or_eq.mp hn with hlt | rfl
      · exact ih hi hlt
      · exact hany
    · omega

/-- Where the scan stops, the property fails. -/
theorem not_of_succ_eq_scanBack {p : α → Bool} {l : List α} {n i : ℕ}
    (hi : i + 1 = scanBack p l n) : l[i]?.any p = false := by
  induction n with
  | zero => simp [scanBack] at hi
  | succ n ih =>
    rw [scanBack] at hi
    split at hi
    · exact ih hi
    · rename_i hany
      obtain rfl : i = n := by omega
      simpa using hany

section Order

variable [LinearOrder β] {key : α → β} {bound : β} {l : List α}

/-- In a list in order that reaches back to a bound, the element before the scanned ones is not
beyond it, and where there is none, the first element is not. -/
theorem key_pred_scanBack_le (key : α → β) (hsorted : l.Pairwise fun a b => key a < key b)
    (hreach : ∃ x ∈ l, key x ≤ bound) :
    ∃ h : scanBack (fun x => bound ≤ key x) l l.length - 1 < l.length,
      key l[scanBack (fun x => bound ≤ key x) l l.length - 1] ≤ bound := by
  set n := scanBack (fun x => decide (bound ≤ key x)) l l.length with hn
  obtain ⟨x, hx, hle⟩ := hreach
  obtain ⟨j, hj, rfl⟩ := List.getElem_of_mem hx
  have hnle : n ≤ l.length := scanBack_le _ l l.length
  have hlt : n - 1 < l.length := by omega
  refine ⟨hlt, ?_⟩
  rcases Nat.eq_zero_or_pos n with hzero | hpos
  · rcases Nat.eq_zero_or_pos j with rfl | hj0
    · simpa only [hzero] using hle
    · exact ((List.pairwise_iff_getElem.mp hsorted (n - 1) j hlt hj (by omega)).le).trans hle
  · have hfails := not_of_succ_eq_scanBack (i := n - 1) (p := fun x => decide (bound ≤ key x))
      (l := l) (n := l.length) (by omega)
    rw [List.getElem?_eq_getElem hlt, Option.any_some] at hfails
    exact (not_le.mp (of_decide_eq_false hfails)).le

/-- **No element from the bound on lies before the position that is not beyond it.** -/
theorem mem_drop_of_le (hsorted : l.Pairwise fun a b => key a < key b) {k : ℕ} (hk : k < l.length)
    (hbound : key l[k] ≤ bound) {x : α} (hx : x ∈ l) (hle : bound ≤ key x) : x ∈ l.drop k := by
  obtain ⟨i, hi, rfl⟩ := List.getElem_of_mem hx
  have hki : k ≤ i := by
    by_contra hlt
    have hik := List.pairwise_iff_getElem.mp hsorted i k hi hk (by omega)
    exact absurd (hik.trans_le hbound) (not_lt.mpr hle)
  rw [List.mem_drop_iff_getElem]
  exact ⟨i - k, by omega, by congr 1; omega⟩

end Order

end Rolling

end Taskman
