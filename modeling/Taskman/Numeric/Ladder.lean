import Mathlib.Order.Lattice
import Mathlib.Data.List.Basic

/-!
# The next rung of a ladder

A value is rounded up to the first rung of a ladder that is not below it, and to the top rung where
all are.

* `ceil rungs top x` : that rung;
* `le_ceil_iff` : **it is not below the value exactly where the top is not**;
* `ceil_mono` : **a larger value has no lower rung**;
* `exists_before_ceil` : **above the lowest rung, the one before it is below the value**.
-/

namespace Taskman

namespace Ladder

variable {α : Type*} [LinearOrder α] {rungs : List α} {top x y : α}

/-- The first rung that is not below a value. -/
def ceil (rungs : List α) (top x : α) : α := (rungs.find? fun rung => x ≤ rung).getD top

@[simp] theorem ceil_nil (top x : α) : ceil [] top x = top := rfl

theorem ceil_cons_of_le {rung : α} (h : x ≤ rung) (rungs : List α) (top : α) :
    ceil (rung :: rungs) top x = rung := by
  simp [ceil, h]

theorem ceil_cons_of_lt {rung : α} (h : rung < x) (rungs : List α) (top : α) :
    ceil (rung :: rungs) top x = ceil rungs top x := by
  rw [ceil, List.find?_cons_of_neg (by simpa using h), ceil]

theorem ceil_append_of_lt {lower : List α} (h : ∀ rung ∈ lower, rung < x) :
    ceil (lower ++ rungs) top x = ceil rungs top x := by
  induction lower with
  | nil => rfl
  | cons rung lower ih =>
    obtain ⟨hrung, hlower⟩ := List.forall_mem_cons.mp h
    rw [List.cons_append, ceil_cons_of_lt hrung, ih hlower]

/-- Rungs above the one that follows are not reached. -/
theorem ceil_append_cons {rung : α} (h : x ≤ rung) (upper : List α) :
    ceil (rungs ++ rung :: upper) top x = ceil rungs rung x := by
  induction rungs with
  | nil => exact ceil_cons_of_le h upper top
  | cons first rungs ih =>
    rcases le_or_gt x first with hle | hlt
    · rw [List.cons_append, ceil_cons_of_le hle, ceil_cons_of_le hle]
    · rw [List.cons_append, ceil_cons_of_lt hlt, ceil_cons_of_lt hlt, ih]

theorem ceil_mem : ceil rungs top x ∈ rungs ++ [top] := by
  induction rungs with
  | nil => exact List.mem_singleton_self top
  | cons rung rungs ih =>
    rcases le_or_gt x rung with hle | hlt
    · rw [ceil_cons_of_le hle]
      exact List.mem_cons_self
    · rw [ceil_cons_of_lt hlt]
      exact List.mem_cons_of_mem rung ih

/-- **The rung is not below the value exactly where the top is not.** -/
theorem le_ceil_iff (htop : ∀ rung ∈ rungs, rung ≤ top) : x ≤ ceil rungs top x ↔ x ≤ top := by
  induction rungs with
  | nil => rfl
  | cons rung rungs ih =>
    obtain ⟨hrung, hrungs⟩ := List.forall_mem_cons.mp htop
    rcases le_or_gt x rung with hle | hlt
    · rw [ceil_cons_of_le hle]
      exact ⟨fun h => h.trans hrung, fun _ => hle⟩
    · rw [ceil_cons_of_lt hlt, ih hrungs]

/-- **A larger value has no lower rung.** -/
theorem ceil_mono (hsorted : (rungs ++ [top]).Pairwise (· ≤ ·)) (h : x ≤ y) :
    ceil rungs top x ≤ ceil rungs top y := by
  induction rungs with
  | nil => rfl
  | cons rung rungs ih =>
    obtain ⟨hrung, hrungs⟩ := List.pairwise_cons.mp hsorted
    rcases le_or_gt y rung with hle | hlt
    · rw [ceil_cons_of_le hle, ceil_cons_of_le (h.trans hle)]
    rw [ceil_cons_of_lt hlt]
    rcases le_or_gt x rung with hle' | hlt'
    · rw [ceil_cons_of_le hle']
      exact hrung _ ceil_mem
    · rw [ceil_cons_of_lt hlt']
      exact ih hrungs

/-- **Above the lowest rung, the one before it is below the value.** -/
theorem exists_before_ceil {next : α → α → Prop} {lowest : α}
    (hchain : (lowest :: (rungs ++ [top])).IsChain next) (h : lowest < x) :
    ∃ rung < x, next rung (ceil (lowest :: rungs) top x) := by
  rw [ceil_cons_of_lt h]
  induction rungs generalizing lowest with
  | nil => exact ⟨lowest, h, (List.isChain_cons_cons.mp hchain).1⟩
  | cons rung rungs ih =>
    obtain ⟨hnext, hrungs⟩ := List.isChain_cons_cons.mp hchain
    rcases le_or_gt x rung with hle | hlt
    · rw [ceil_cons_of_le hle]
      exact ⟨lowest, h, hnext⟩
    · rw [ceil_cons_of_lt hlt]
      exact ih hrungs hlt

end Ladder

end Taskman
