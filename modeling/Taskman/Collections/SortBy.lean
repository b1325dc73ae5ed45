import Mathlib.Data.List.Sort

/-!
# Stable sorting by a comparison

Sorting with a comparison that says which of two elements comes first.  Elements the comparison
finds equal keep the order they came in.

* `sortBy cmp` : the sorted list, a permutation of the input (`sortBy_perm`);
* `map_sortBy` : **sorting by a key commutes with taking the key**;
* `sortBy_eq_of_perm` : **a comparison that tells all elements apart leaves nothing to the order of
  the input**;
* `filter_sortBy` : **a part of the sorted list is that part sorted**;
* `sublist_pair_iff` : of two elements of a sorted list the lesser one comes first.
-/

namespace Taskman

section

variable {α β : Type*}

/-- `v.sort_by(cmp)`. -/
def sortBy (cmp : α → α → Ordering) (l : List α) : List α :=
  l.insertionSort fun a b => cmp a b ≠ .gt

theorem sortBy_perm (cmp : α → α → Ordering) (l : List α) : (sortBy cmp l).Perm l :=
  List.perm_insertionSort _ l

@[simp]
theorem mem_sortBy {cmp : α → α → Ordering} {l : List α} {a : α} : a ∈ sortBy cmp l ↔ a ∈ l :=
  (sortBy_perm cmp l).mem_iff

@[simp]
theorem length_sortBy (cmp : α → α → Ordering) (l : List α) : (sortBy cmp l).length = l.length :=
  (sortBy_perm cmp l).length_eq

/-- **Sorting by what `f` gives is sorting after `f`.** -/
theorem map_sortBy (f : α → β) (cmp : β → β → Ordering) (l : List α) :
    (sortBy (fun a b => cmp (f a) (f b)) l).map f = sortBy cmp (l.map f) :=
  List.map_insertionSort _ _ f l fun _ _ _ _ => Iff.rfl

variable {cmp : α → α → Ordering} [Std.TransCmp cmp]

/-- The sorted list goes from less to greater. -/
theorem pairwise_sortBy (l : List α) : (sortBy cmp l).Pairwise fun a b => cmp a b ≠ .gt := by
  have : Std.Total fun a b : α => cmp a b ≠ .gt := by
    refine ⟨fun a b => ?_⟩
    by_contra h
    simp only [not_or, not_not] at h
    have hlt : cmp b a = .lt := Std.OrientedCmp.lt_of_gt h.1
    rw [h.2] at hlt
    cases hlt
  have : IsTrans α fun a b : α => cmp a b ≠ .gt := by
    refine ⟨fun a b c hab hbc => ?_⟩
    have hac := Std.TransCmp.isLE_trans (Ordering.isLE_iff_ne_gt.mpr hab)
      (Ordering.isLE_iff_ne_gt.mpr hbc)
    exact Ordering.isLE_iff_ne_gt.mp hac
  exact List.pairwise_insertionSort _ l

/-- An element inserted into a sorted list, among the elements that are kept. -/
theorem filter_orderedInsert (p : α → Bool) (a : α) {l : List α}
    (h : l.Pairwise fun a b => cmp a b ≠ .gt) :
    (l.orderedInsert (fun a b => cmp a b ≠ .gt) a).filter p =
      if p a then (l.filter p).orderedInsert (fun a b => cmp a b ≠ .gt) a else l.filter p := by
  induction l with
  | nil => cases hp : p a <;> simp [hp]
  | cons b l ih =>
    obtain ⟨hb, hl⟩ := List.pairwise_cons.mp h
    rw [List.orderedInsert_cons]
    by_cases hab : cmp a b ≠ .gt
    · rw [if_pos hab]
      -- what comes after `b` comes after `a`
      have hall : ∀ c ∈ (b :: l).filter p, cmp a c ≠ .gt := by
        intro c hc
        rcases List.mem_cons.mp (List.mem_filter.mp hc).1 with rfl | hc
        · exact hab
        · exact Ordering.isLE_iff_ne_gt.mp (Std.TransCmp.isLE_trans
            (Ordering.isLE_iff_ne_gt.mpr hab) (Ordering.isLE_iff_ne_gt.mpr (hb c hc)))
      cases hp : p a with
      | false => simp [List.filter_cons, hp]
      | true =>
        rw [List.filter_cons, if_pos hp, if_pos rfl]
        cases hkept : (b :: l).filter p with
        | nil => rfl
        | cons c rest =>
          rw [List.orderedInsert_cons, if_pos (hall c (hkept ▸ List.mem_cons_self))]
    · rw [if_neg hab, List.filter_cons, List.filter_cons, ih hl]
      cases hp : p a <;> cases hpb : p b <;> simp [hab]

/-- **Sorting keeps the order of a part: it does not matter whether the rest is sorted with it.** -/
theorem filter_sortBy (p : α → Bool) (l : List α) :
    (sortBy cmp l).filter p = sortBy cmp (l.filter p) := by
  induction l with
  | nil => rfl
  | cons a l ih =>
    have hcons : sortBy cmp (a :: l) =
        (sortBy cmp l).orderedInsert (fun a b => cmp a b ≠ .gt) a := rfl
    rw [hcons, filter_orderedInsert p a (pairwise_sortBy l), ih, List.filter_cons]
    split_ifs <;> rfl

/-- **A comparison that tells the elements apart leaves nothing to the order of the input.** -/
theorem sortBy_eq_of_perm {l l' : List α} (h : l.Perm l')
    (hne : ∀ a ∈ l, ∀ b ∈ l, cmp a b = .eq → a = b) : sortBy cmp l = sortBy cmp l' := by
  refine List.Perm.eq_of_pairwise ?_ (pairwise_sortBy l) (pairwise_sortBy l')
    (((sortBy_perm cmp l).trans h).trans (sortBy_perm cmp l').symm)
  intro a b ha hb hab hba
  refine hne a (mem_sortBy.mp ha) b (h.mem_iff.mpr (mem_sortBy.mp hb)) ?_
  exact Std.OrientedCmp.isLE_antisymm (Ordering.isLE_iff_ne_gt.mpr hab)
    (Ordering.isLE_iff_ne_gt.mpr hba)

/-! ### Places in a sorted list -/

/-- Of two elements of a sorted list the lesser one comes first. -/
theorem sublist_pair_iff {lt : α → α → Prop} {l : List α} (hl : l.Pairwise lt)
    (hasymm : ∀ a b, lt a b → ¬ lt b a) {a b : α} (ha : a ∈ l) (hb : b ∈ l) :
    [a, b].Sublist l ↔ lt a b := by
  refine ⟨fun hsub => List.pairwise_pair.mp (hl.sublist hsub), fun hlt => ?_⟩
  induction l with
  | nil => simp at ha
  | cons x l ih =>
    obtain ⟨hx, hl⟩ := List.pairwise_cons.mp hl
    rcases List.mem_cons.mp ha with rfl | hal
    · rcases List.mem_cons.mp hb with rfl | hbl
      · exact absurd hlt (hasymm _ _ hlt)
      · exact (List.singleton_sublist.mpr hbl).cons_cons a
    · rcases List.mem_cons.mp hb with rfl | hbl
      · exact absurd (hx a hal) (hasymm _ _ hlt)
      · exact (ih hl hal hbl).cons x

end

end Taskman
