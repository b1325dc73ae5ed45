import Mathlib.Data.List.Basic
import Mathlib.Data.List.TakeWhile
import Mathlib.Order.Lattice

/-!
# Binary search for a partition point

The search of the standard library for the number of elements at the beginning of a list that have a
property.  Its result means this number only for lists in which no element without the property
precedes one that has it.

* `partitionPoint p l` : the position the search ends at;
* `partitionPoint_append` : **it is the length of the first part** of a list with two such parts;
* `lt_partitionPoint_iff` : **in a list in order, what is below a bound is what lies before it**;
* `partitionPoint_change` : in every list, the property changes at this position.
-/

namespace Taskman

namespace Bisect

variable {α : Type*} {p : ℕ → Bool}

/-- Halve the range of `size` positions from `base`, keeping the half in which `p` changes. -/
def loop (p : ℕ → Bool) (size base : ℕ) : ℕ :=
  if 1 < size then
    loop p (size - size / 2) (if p (base + size / 2) then base + size / 2 else base)
  else base
termination_by size

/-- `slice::partition_point`, by bisection. -/
def partitionPoint (p : α → Bool) (l : List α) : ℕ :=
  if l = [] then 0
  else
    let base := loop (fun i => l[i]?.any p) l.length 0
    if l[base]?.any p then base + 1 else base

/-- The range always contains a change, if there is one. -/
theorem loop_spec {k size : ℕ} (base : ℕ) (hsize : 0 < size) (hbase : base = 0 ∨ base < k)
    (hk : k ≤ base + size) (hp : ∀ i < base + size, p i = decide (i < k)) :
    (loop p size base = 0 ∨ loop p size base < k) ∧ k ≤ loop p size base + 1 ∧
      loop p size base < base + size := by
  induction size using Nat.strong_induction_on generalizing base with
  | _ size ih =>
    rw [loop]
    split
    · rename_i hlt
      have hmid := hp (base + size / 2) (by omega)
      rcases Nat.lt_or_ge (base + size / 2) k with hbefore | hafter
      · rw [if_pos (hmid.trans (decide_eq_true hbefore))]
        have hnext := ih (size - size / 2) (by omega) (base + size / 2) (by omega)
          (Or.inr hbefore) (by omega) fun i hi => hp i (by omega)
        exact ⟨hnext.1, hnext.2.1, by omega⟩
      · rw [hmid, decide_eq_false (Nat.not_lt.mpr hafter), if_neg Bool.false_ne_true]
        have hnext := ih (size - size / 2) (by omega) base (by omega) hbase (by omega)
          fun i hi => hp i (by omega)
        exact ⟨hnext.1, hnext.2.1, by omega⟩
    · exact ⟨hbase, by omega, by omega⟩

/-- **The search ends at the boundary** between elements that have the property and elements that
do not. -/
theorem partitionPoint_append {p : α → Bool} {a b : List α} (ha : ∀ x ∈ a, p x)
    (hb : ∀ x ∈ b, ¬ p x) : partitionPoint p (a ++ b) = a.length := by
  rw [partitionPoint]
  split
  · rename_i hnil
    rw [(List.append_eq_nil_iff.mp hnil).1, List.length_nil]
  · rename_i hne
    have hp : ∀ i < (a ++ b).length, ((a ++ b)[i]?.any p) = decide (i < a.length) := by
      intro i hi
      rcases Nat.lt_or_ge i a.length with hlt | hge
      · rw [List.getElem?_append_left hlt, List.getElem?_eq_getElem hlt, Option.any_some,
          ha _ (List.getElem_mem hlt), decide_eq_true hlt]
      · have hi' : i - a.length < b.length := by
          rw [List.length_append] at hi
          omega
        rw [List.getElem?_append_right hge, List.getElem?_eq_getElem hi', Option.any_some,
          decide_eq_false (Nat.not_lt.mpr hge)]
        exact Bool.eq_false_iff.mpr (hb _ (List.getElem_mem hi'))
    have hpos : 0 < (a ++ b).length := List.length_pos_iff.mpr hne
    obtain ⟨hbase, hk, hlt⟩ := loop_spec (k := a.length) 0 hpos (Or.inl rfl)
      (by rw [List.length_append]; omega) (fun i hi => hp i (by omega))
    rw [Nat.zero_add] at hlt
    dsimp only
    rw [hp _ hlt]
    split
    · rename_i hbefore
      have := of_decide_eq_true hbefore
      omega
    · rename_i hafter
      rw [decide_eq_true_eq] at hafter
      omega

/-- In a list in order, nothing after the elements below a bound is below it. -/
theorem le_of_mem_dropWhile [LinearOrder α] {l : List α} (hsorted : l.Pairwise (· ≤ ·))
    {bound x : α} (hx : x ∈ l.dropWhile fun y => y < bound) : bound ≤ x := by
  induction l with
  | nil => cases hx
  | cons first l ih =>
    obtain ⟨hfirst, hl⟩ := List.pairwise_cons.mp hsorted
    rcases lt_or_ge first bound with hlt | hge
    · rw [List.dropWhile_cons_of_pos (by simpa using hlt)] at hx
      exact ih hl hx
    · rw [List.dropWhile_cons_of_neg (by simpa using hge)] at hx
      rcases List.mem_cons.mp hx with rfl | hx
      · exact hge
      · exact hge.trans (hfirst x hx)

theorem partitionPoint_sorted [LinearOrder α] {l : List α} (hsorted : l.Pairwise (· ≤ ·))
    (bound : α) :
    partitionPoint (fun x => x < bound) l = (l.takeWhile fun x => x < bound).length := by
  have hpoint := partitionPoint_append (p := fun x => decide (x < bound))
    (a := l.takeWhile fun x => x < bound) (b := l.dropWhile fun x => x < bound)
    (fun x hx => List.mem_takeWhile_imp (p := fun x => decide (x < bound)) hx)
    fun x hx => by simpa using le_of_mem_dropWhile hsorted hx
  rwa [List.takeWhile_append_dropWhile] at hpoint

theorem partitionPoint_le_length [LinearOrder α] {l : List α} (hsorted : l.Pairwise (· ≤ ·))
    (bound : α) : partitionPoint (fun x => x < bound) l ≤ l.length :=
  partitionPoint_sorted hsorted bound ▸ (List.takeWhile_prefix _).length_le

/-- **In a list in order, the elements below the bound are those before the position.** -/
theorem lt_partitionPoint_iff [LinearOrder α] {l : List α} (hsorted : l.Pairwise (· ≤ ·))
    (bound : α) {i : ℕ} (hi : i < l.length) :
    i < partitionPoint (fun x => x < bound) l ↔ l[i] < bound := by
  have hsplit := List.takeWhile_append_dropWhile (p := fun x => decide (x < bound)) (l := l)
  rw [partitionPoint_sorted hsorted]
  constructor
  · intro hlt
    have hmem := List.getElem_mem hlt
    rw [List.IsPrefix.getElem (List.takeWhile_prefix _) hlt] at hmem
    exact of_decide_eq_true (List.mem_takeWhile_imp (p := fun x => decide (x < bound)) hmem)
  · intro hbelow
    by_contra hge
    have hmem : l[i] ∈ l.dropWhile fun x => x < bound := by
      have hget : (List.takeWhile (fun x => decide (x < bound)) l ++
          List.dropWhile (fun x => decide (x < bound)) l)[i]? = some l[i] := by
        rw [hsplit, List.getElem?_eq_getElem hi]
      rw [List.getElem?_append_right (Nat.not_lt.mp hge)] at hget
      exact List.mem_of_getElem? hget
    exact absurd hbelow (not_lt.mpr (le_of_mem_dropWhile hsorted hmem))

/-! ### In any list -/

theorem loop_change {size base : ℕ} (hsize : 0 < size) (hbase : base = 0 ∨ p base)
    (hend : p (base + size) = false ∨ p (base + size - 1) = false) :
    (loop p size base = 0 ∨ p (loop p size base)) ∧
      (p (loop p size base + 1) = false ∨ p (loop p size base) = false) := by
  induction size using Nat.strong_induction_on generalizing base with
  | _ size ih =>
    rw [loop]
    split
    · rename_i hlt
      cases hmid : p (base + size / 2) with
      | true =>
        rw [if_pos rfl]
        have hsame : base + size / 2 + (size - size / 2) = base + size := by omega
        exact ih _ (by omega) (by omega) (Or.inr hmid) (by rwa [hsame])
      | false =>
        rw [if_neg Bool.false_ne_true]
        refine ih _ (by omega) (by omega) hbase ?_
        -- the middle is the new end, or the last position of the new range
        rcases Nat.mod_two_eq_zero_or_one size with heven | hodd
        · left
          rwa [show base + (size - size / 2) = base + size / 2 by omega]
        · right
          rwa [show base + (size - size / 2) - 1 = base + size / 2 by omega]
    · obtain rfl : size = 1 := by omega
      exact ⟨hbase, hend⟩

/-- **In every list the property holds directly before the position, and fails there.** -/
theorem partitionPoint_change (p : α → Bool) (l : List α) :
    (0 < partitionPoint p l → l[partitionPoint p l - 1]?.any p) ∧
      l[partitionPoint p l]?.any p = false := by
  rw [partitionPoint]
  split
  · rename_i hnil
    simp [hnil]
  · rename_i hne
    have hlast : l[0 + l.length]?.any p = false := by simp
    obtain ⟨hbefore, hafter⟩ := loop_change (p := fun i => l[i]?.any p)
      (List.length_pos_iff.mpr hne) (Or.inl rfl) (Or.inl hlast)
    dsimp only
    split
    · rename_i hholds
      exact ⟨fun _ => hholds, hafter.resolve_right (by simp [hholds])⟩
    · rename_i hfails
      have hzero := hbefore.resolve_right hfails
      exact ⟨fun hpos => absurd hzero hpos.ne', Bool.eq_false_iff.mpr hfails⟩

end Bisect

end Taskman
