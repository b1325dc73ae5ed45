import Mathlib.Data.List.Chain
import Mathlib.Data.List.Pairwise
import Mathlib.Data.List.TakeWhile
import Mathlib.Order.MinMax

/-!
# Disjoint half-open ranges

Things that occupy a half-open range `[start a, stop a)` of a linear order.  Whether a list of them
is free of overlaps is decided by sorting the list by `start` and comparing neighbours:
`isChain_iff_pairwise_apart`.  Which of them holds a point is decided by the last one that starts
at or before it: `lastStarted_iff`.
-/

namespace Ranges

variable {α β : Type*} [LinearOrder β] {start stop : α → β}

/-- The ranges of `a` and `b` are apart: one ends before the other starts. -/
def Apart (start stop : α → β) (a b : α) : Prop := stop a ≤ start b ∨ stop b ≤ start a

theorem Apart.symm {a b : α} (h : Apart start stop a b) : Apart start stop b a := Or.symm h

/-- If every range ends before its neighbour starts, it ends before all later ones start. -/
theorem pairwise_of_isChain {l : List α} (hle : ∀ a ∈ l, start a ≤ stop a)
    (hc : l.IsChain fun a b => stop a ≤ start b) : l.Pairwise fun a b => stop a ≤ start b := by
  -- Transitivity needs `start ≤ stop` of the range in the middle, so it is put into the relation.
  let r : α → α → Prop := fun a b => stop a ≤ start b ∧ start b ≤ stop b
  have htrans : ∀ {a b c : α}, r a b → r b c → r a c :=
    fun hab hbc => ⟨hab.1.trans (hab.2.trans hbc.1), hbc.2⟩
  have : IsTrans α r := ⟨fun _ _ _ => htrans⟩
  have hr : l.IsChain r := hc.imp_of_mem_imp fun _ b _ hb hab => ⟨hab, hle b hb⟩
  exact hr.pairwise.imp fun h => h.1

theorem pairwise_of_apart {l : List α} (hlt : ∀ a ∈ l, start a < stop a)
    (hsorted : l.Pairwise fun a b => start a ≤ start b)
    (happart : l.Pairwise (Apart start stop)) : l.Pairwise fun a b => stop a ≤ start b := by
  refine (hsorted.and happart).imp_of_mem fun {a b} _ hb h => ?_
  rcases h with ⟨hle, h | h⟩
  · exact h
  · exact absurd ((hlt b hb).trans_le (h.trans hle)) (lt_irrefl _)

/-- **Comparing neighbours decides disjointness**: in a list `l'` of non-empty ranges sorted by
their starts every range ends before the next one starts, just if the ranges of the unsorted
list `l` are apart from one another. -/
theorem isChain_iff_pairwise_apart {l l' : List α} (hperm : l'.Perm l)
    (hlt : ∀ a ∈ l, start a < stop a) (hsorted : l'.Pairwise fun a b => start a ≤ start b) :
    (l'.IsChain fun a b => stop a ≤ start b) ↔ l.Pairwise (Apart start stop) := by
  have hlt' : ∀ a ∈ l', start a < stop a := fun a ha => hlt a (hperm.mem_iff.mp ha)
  rw [← hperm.pairwise_iff Apart.symm]
  constructor
  · intro hc
    have hle : ∀ a ∈ l', start a ≤ stop a := fun a ha => (hlt' a ha).le
    exact (pairwise_of_isChain hle hc).imp Or.inl
  · intro happart
    exact (pairwise_of_apart hlt' hsorted happart).isChain

/-! ### Finding the range of a point -/

/-- `v.partition_point(pred)`: where the elements that satisfy `pred` end, if they come first. -/
def partitionPoint (pred : α → Bool) (l : List α) : ℕ := (l.takeWhile pred).length

/-- The element before the partition point is an element that satisfies the condition. -/
theorem getElem?_partitionPoint {pred : α → Bool} {l : List α} {position : ℕ} {a : α}
    (hpoint : partitionPoint pred l = position + 1) (ha : l[position]? = some a) :
    a ∈ l ∧ pred a := by
  have hlt : position < (l.takeWhile pred).length := by
    rw [← partitionPoint, hpoint]
    exact position.lt_succ_self
  have htake := List.prefix_iff_getElem?.mp (List.takeWhile_prefix pred) position hlt
  rw [ha] at htake
  obtain rfl := Option.some.inj htake
  exact ⟨List.mem_of_getElem? ha, List.mem_takeWhile_imp (List.getElem_mem hlt)⟩

/-- **The last range that starts at or before a point is the only one that can hold it**, among
ranges in order. -/
theorem lastStarted_iff {l : List α} (hlt : ∀ a ∈ l, start a < stop a)
    (hl : l.Pairwise fun a b => stop a ≤ start b) {x : β} {a : α} :
    (∃ position, partitionPoint (fun b => decide (start b ≤ x)) l = position + 1 ∧
        l[position]? = some a ∧ x < stop a) ↔
      a ∈ l ∧ start a ≤ x ∧ x < stop a := by
  constructor
  · rintro ⟨position, hpoint, ha, hstop⟩
    obtain ⟨hmem, hstart⟩ := getElem?_partitionPoint hpoint ha
    exact ⟨hmem, of_decide_eq_true hstart, hstop⟩
  · rintro ⟨hmem, hstart, hstop⟩
    obtain ⟨before, after, rfl⟩ := List.append_of_mem hmem
    obtain ⟨-, hafter, hbefore⟩ := List.pairwise_append.mp hl
    -- the ranges before `a` start below `x`, the ones after it do not
    have hpre : ∀ b ∈ before, decide (start b ≤ x) = true := fun b hb =>
      decide_eq_true ((hlt b (List.mem_append_left _ hb)).le.trans
        ((hbefore b hb a List.mem_cons_self).trans hstart))
    have hpost : after.takeWhile (fun b => decide (start b ≤ x)) = [] := by
      cases after with
      | nil => rfl
      | cons b after =>
        refine List.takeWhile_cons_of_neg ?_
        rw [decide_eq_true_iff, not_le]
        exact hstop.trans_le ((List.pairwise_cons.mp hafter).1 b List.mem_cons_self)
    have hget : (before ++ a :: after)[before.length]? = some a := by simp
    refine ⟨before.length, ?_, hget, hstop⟩
    have hself : (a :: after).takeWhile (fun b => decide (start b ≤ x)) = [a] := by
      simp [hstart, hpost]
    rw [partitionPoint, List.takeWhile_append_of_pos hpre, hself, List.length_append]
    rfl

/-! ### Ends -/

theorem foldl_max_le_iff {l : List β} {a b : β} :
    l.foldl max a ≤ b ↔ a ≤ b ∧ ∀ x ∈ l, x ≤ b := by
  induction l generalizing a with
  | nil => simp
  | cons x l ih => rw [List.foldl_cons, ih, max_le_iff, List.forall_mem_cons, and_assoc]

/-- A furthest end is one of the ends. -/
theorem foldl_max_eq_or_mem (l : List β) (a : β) : l.foldl max a = a ∨ l.foldl max a ∈ l := by
  induction l generalizing a with
  | nil => exact Or.inl rfl
  | cons x l ih =>
    rw [List.foldl_cons]
    rcases ih (max a x) with h | h
    · rw [h]
      rcases max_choice a x with hmax | hmax
      · exact Or.inl hmax
      · rw [hmax]
        exact Or.inr List.mem_cons_self
    · exact Or.inr (List.mem_cons_of_mem _ h)

theorem le_foldl_max {l : List β} {x : β} (hx : x ∈ l) (a : β) : x ≤ l.foldl max a :=
  (foldl_max_le_iff.mp le_rfl).2 x hx

end Ranges
