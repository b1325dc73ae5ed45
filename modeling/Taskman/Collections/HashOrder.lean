import Mathlib.Order.Basic

/-!
# Orders of iteration

What a hash table iterates over is known, the order is not.  An order of iteration rearranges any
list of entries; a loop whose turns commute gives one result under all of them.

* `HashOrder` : an order of iteration, with the proof that it only rearranges;
* `HashOrder.foldl_order` : **a loop whose turns commute does not depend on it**.
-/

namespace Taskman

/-- An order in which a hash table may iterate over its entries. -/
structure HashOrder (α : Type*) where
  order : List α → List α
  perm : ∀ l, (order l).Perm l

namespace HashOrder

variable {α β : Type*}

/-- The entries in the order they were inserted. -/
def inserted : HashOrder α where
  order l := l
  perm l := List.Perm.refl l

/-- The entries from the last inserted to the first. -/
def reversed : HashOrder α where
  order l := l.reverse
  perm l := List.reverse_perm l

theorem mem_order (h : HashOrder α) {l : List α} {a : α} : a ∈ h.order l ↔ a ∈ l :=
  (h.perm l).mem_iff

/-- **A loop whose turns commute gives one result under every order of iteration.** -/
theorem foldl_order (h : HashOrder α) {f : β → α → β} {l : List α}
    (comm : ∀ x ∈ l, ∀ y ∈ l, ∀ b, f (f b x) y = f (f b y) x) (b : β) :
    (h.order l).foldl f b = l.foldl f b := by
  refine (h.perm l).foldl_eq' ?_ b
  intro x hx y hy
  exact comm x (h.mem_order.mp hx) y (h.mem_order.mp hy)

end HashOrder

end Taskman
