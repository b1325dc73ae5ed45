import Mathlib.Data.List.Sort
import Mathlib.Order.Lattice

/-!
# Majorities

An element holds the majority of a list if more than half of the entries are equal to it.  In a
sorted list equal entries stand together, so the majority is the value of the longest run.

* `IsMajority` : more than half of a list, of **at most one** element (`IsMajority.eq`);
* `longestRun` : the first longest run of equal entries, on sorted lists;
* `longestRun_spec` : **no entry occurs more often than the one of the longest run**;
* `commonEntry` : the entry of the longest run if that is a majority, and a default otherwise
  (`commonEntry_of_isMajority`, `commonEntry_of_not_isMajority`).
-/

namespace Majority

variable {α : Type*} [LinearOrder α]

/-- More than half of the entries are equal to `a`. -/
def IsMajority (l : List α) (a : α) : Prop := l.length < 2 * l.count a

instance (l : List α) (a : α) : Decidable (IsMajority l a) := inferInstanceAs (Decidable (_ < _))

/-- Only one element holds the majority. -/
theorem IsMajority.eq {l : List α} {a b : α} (ha : IsMajority l a) (hb : IsMajority l b) :
    a = b := by
  by_contra hne
  have hle : l.count b ≤ l.countP fun c => ¬ (c == a) := by
    refine List.countP_mono_left fun c _ hc => ?_
    have hcb : c = b := by simpa using hc
    simpa [hcb] using Ne.symm hne
  have hlength := List.length_eq_countP_add_countP (· == a) (l := l)
  unfold IsMajority List.count at *
  omega

theorem IsMajority.perm {l l' : List α} {a : α} (hperm : l.Perm l') :
    IsMajority l a ↔ IsMajority l' a := by
  rw [IsMajority, IsMajority, hperm.length_eq, hperm.count_eq]

/-! ### Runs -/

/-- The longest run of entries that are not greater than its first, or the best one so far. -/
def longestRun (best : α × ℕ) : List α → α × ℕ
  | [] => best
  | a :: l =>
    let run := (l.takeWhile (· ≤ a)).length + 1
    longestRun (if best.2 < run then (a, run) else best) (l.dropWhile (· ≤ a))
termination_by l => l.length
decreasing_by exact Nat.lt_succ_of_le (List.dropWhile_sublist _).length_le

variable {a : α} {l : List α}

/-- A sorted list is cut where its entries become greater. -/
theorem takeWhile_dropWhile_eq_filter (h : l.Pairwise (· ≤ ·)) (a : α) :
    l.takeWhile (· ≤ a) = l.filter (· ≤ a) ∧ l.dropWhile (· ≤ a) = l.filter (¬ · ≤ a) := by
  induction l with
  | nil => exact ⟨rfl, rfl⟩
  | cons b l ih =>
    obtain ⟨hb, hl⟩ := List.pairwise_cons.mp h
    by_cases hle : b ≤ a
    · obtain ⟨htake, hdrop⟩ := ih hl
      simp [hle, htake, hdrop]
    · have hgreater : ∀ c ∈ l, a < c := fun c hc => (not_le.mp hle).trans_le (hb c hc)
      have htake : l.filter (· ≤ a) = [] :=
        List.filter_eq_nil_iff.mpr fun c hc => by simpa using hgreater c hc
      have hdrop : l.filter (¬ · ≤ a) = l :=
        List.filter_eq_self.mpr fun c hc => by simpa using hgreater c hc
      simp only [not_le] at hle hdrop
      simp [hle, htake, hdrop]

/-- The run at the front of a sorted list is as long as its entry occurs often. -/
theorem count_run (h : (a :: l).Pairwise (· ≤ ·)) :
    (a :: l).count a = (l.takeWhile (· ≤ a)).length + 1 := by
  obtain ⟨ha, hl⟩ := List.pairwise_cons.mp h
  rw [List.count_cons_self, (takeWhile_dropWhile_eq_filter hl a).1, ← List.countP_eq_length_filter]
  refine congrArg (· + 1) (List.countP_congr fun b hb => ?_)
  have hle := ha b hb
  simp only [beq_iff_eq, decide_eq_true_eq]
  exact ⟨fun h => h.le, fun h => le_antisymm h hle⟩

/-- Every other entry stands behind it. -/
theorem count_rest (h : (a :: l).Pairwise (· ≤ ·)) {b : α} (hb : b ≠ a) :
    (l.dropWhile (· ≤ a)).count b = (a :: l).count b := by
  obtain ⟨ha, hl⟩ := List.pairwise_cons.mp h
  rw [List.count_cons_of_ne hb.symm, (takeWhile_dropWhile_eq_filter hl a).2]
  by_cases hmem : b ∈ l
  · exact List.count_filter (by simpa using lt_of_le_of_ne (ha b hmem) hb.symm)
  · rw [List.count_eq_zero_of_not_mem hmem,
      List.count_eq_zero_of_not_mem fun h => hmem (List.mem_filter.mp h).1]

theorem count_rest_self (h : (a :: l).Pairwise (· ≤ ·)) :
    (l.dropWhile (· ≤ a)).count a = 0 := by
  rw [(takeWhile_dropWhile_eq_filter (List.pairwise_cons.mp h).2 a).2]
  exact List.count_eq_zero_of_not_mem fun h => by simpa using (List.mem_filter.mp h).2

/-- **The longest run of a sorted list**: no entry occurs more often, and unless the best run so far
was not beaten it is as long as its entry occurs often. -/
theorem longestRun_spec (hsorted : l.Pairwise (· ≤ ·)) (best : α × ℕ) :
    best.2 ≤ (longestRun best l).2 ∧ (∀ b, l.count b ≤ (longestRun best l).2) ∧
      (longestRun best l = best ∨ (longestRun best l).2 = l.count (longestRun best l).1) := by
  fun_induction longestRun best l with
  | case1 best => exact ⟨le_rfl, fun b => Nat.zero_le _, Or.inl rfl⟩
  | case2 best a l run ih =>
    have hrun : run = (a :: l).count a := (count_run hsorted).symm
    simp only [dite_eq_ite] at ih
    obtain ⟨hbest, hcounts, hbeat⟩ :=
      ih (hsorted.sublist ((List.dropWhile_sublist _).trans (List.sublist_cons_self a l)))
    have hnext : best.2 ≤ (if best.2 < run then (a, run) else best).2 ∧
        run ≤ (if best.2 < run then (a, run) else best).2 := by
      split_ifs with hlt
      · exact ⟨hlt.le, le_rfl⟩
      · exact ⟨le_rfl, not_lt.mp hlt⟩
    refine ⟨hnext.1.trans hbest, fun b => ?_, ?_⟩
    · by_cases hb : b = a
      · rw [hb, ← hrun]
        exact hnext.2.trans hbest
      · rw [← count_rest hsorted hb]
        exact hcounts b
    · obtain hsame | hcount := hbeat
      · rw [hsame]
        split_ifs with hlt
        · exact Or.inr hrun
        · exact Or.inl rfl
      · refine Or.inr ?_
        rw [hcount]
        by_cases hb : (longestRun (if best.2 < run then (a, run) else best)
            (l.dropWhile (· ≤ a))).1 = a
        · -- the first entry does not occur behind its run
          rw [hb, count_rest_self hsorted] at hcount
          omega
        · exact count_rest hsorted hb

/-- The entry of the longest run, if it holds the majority. -/
def commonEntry (default : α) (l : List α) : α :=
  let best := longestRun (default, 0) (l.mergeSort (· ≤ ·))
  if l.length < best.2 * 2 then best.1 else default

/-- The longest run of the sorted list counts the entries of the list. -/
theorem longestRun_mergeSort_spec (default : α) (l : List α) :
    (∀ b, l.count b ≤ (longestRun (default, 0) (l.mergeSort (· ≤ ·))).2) ∧
      (longestRun (default, 0) (l.mergeSort (· ≤ ·)) = (default, 0) ∨
        (longestRun (default, 0) (l.mergeSort (· ≤ ·))).2 =
          l.count (longestRun (default, 0) (l.mergeSort (· ≤ ·))).1) := by
  have hsorted : (l.mergeSort (· ≤ ·)).Pairwise (· ≤ ·) := l.pairwise_mergeSort' (· ≤ ·)
  have hcount (b : α) : (l.mergeSort (· ≤ ·)).count b = l.count b :=
    (List.mergeSort_perm l _).count_eq b
  obtain ⟨-, hcounts, hbeat⟩ := longestRun_spec hsorted (default, 0)
  rw [hcount] at hbeat
  exact ⟨fun b => hcount b ▸ hcounts b, hbeat⟩

theorem commonEntry_of_isMajority {default : α} (h : IsMajority l a) :
    commonEntry default l = a := by
  obtain ⟨hcounts, hbeat⟩ := longestRun_mergeSort_spec default l
  have ha := hcounts a
  unfold commonEntry
  dsimp only
  generalize longestRun (default, 0) (l.mergeSort (· ≤ ·)) = best at ha hbeat ⊢
  unfold IsMajority at h
  rw [if_pos (by omega)]
  obtain rfl | hbest := hbeat
  · dsimp only at ha
    omega
  · exact IsMajority.eq (l := l) (by unfold IsMajority; omega) h

theorem commonEntry_of_not_isMajority {default : α} (h : ∀ a, ¬ IsMajority l a) :
    commonEntry default l = default := by
  obtain ⟨-, hbeat⟩ := longestRun_mergeSort_spec default l
  unfold commonEntry
  dsimp only
  generalize longestRun (default, 0) (l.mergeSort (· ≤ ·)) = best at hbeat ⊢
  split_ifs with hlong
  · obtain rfl | hbest := hbeat
    · rfl
    · exact absurd (by unfold IsMajority; omega) (h best.1)
  · rfl

end Majority
