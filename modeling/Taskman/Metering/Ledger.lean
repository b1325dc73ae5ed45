import Mathlib.Algebra.BigOperators.Group.Finset.Piecewise
import Mathlib.Algebra.Order.Group.Defs
import Mathlib.Data.List.Dedup
import Mathlib.Tactic.Abel

/-!
# Ledgers of meter readings

A *ledger* is the list of the readings taken of a family of cumulative meters, oldest first.
Whoever charges consumption from such readings may charge, for one meter, at most what the meter
advanced while it was watched (`spread`), or, when the meter is known to have started at zero, its
last reading.  Both sums are described here by what one more reading adds to them:

* `Ledger.latest`, `Ledger.earliest` : the last and the first reading of one meter;
* `Ledger.spreadSum_append`, `Ledger.latestSum_append` : the two sums after one more reading;
* `Ledger.Covered` : a charge that one more reading pays for;
* `Ledger.add_le_spreadSum`, `Ledger.add_le_latestSum` : **a covered charge keeps a bill within
  the sum**.
-/

namespace Metering

/-- The readings taken of the meters `ι`, oldest first. -/
abbrev Ledger (ι α : Type*) := List (ι × α)

namespace Ledger

variable {ι α : Type*} [DecidableEq ι]

/-- The last reading of meter `i`. -/
def latest (rs : Ledger ι α) (i : ι) : Option α :=
  (rs.reverse.find? fun r => r.1 = i).map Prod.snd

/-- The first reading of meter `i`. -/
def earliest (rs : Ledger ι α) (i : ι) : Option α :=
  (rs.find? fun r => r.1 = i).map Prod.snd

/-- The meters read at least once. -/
def meters (rs : Ledger ι α) : Finset ι := (rs.map Prod.fst).toFinset

/-- No meter runs backwards. -/
def Nondecreasing [LE α] (rs : Ledger ι α) : Prop :=
  rs.Pairwise fun a b => a.1 = b.1 → a.2 ≤ b.2

instance [LE α] [DecidableLE α] (rs : Ledger ι α) : Decidable (Nondecreasing rs) :=
  inferInstanceAs (Decidable (rs.Pairwise _))

/-! ### One more reading -/

theorem latest_append (rs : Ledger ι α) (i j : ι) (v : α) :
    latest (rs ++ [(i, v)]) j = if i = j then some v else latest rs j := by
  unfold latest
  rw [List.reverse_append, List.reverse_singleton, List.singleton_append, List.find?_cons]
  by_cases h : i = j <;> simp [h]

theorem earliest_append (rs : Ledger ι α) (i j : ι) (v : α) :
    earliest (rs ++ [(i, v)]) j = (earliest rs j).or (if i = j then some v else none) := by
  unfold earliest
  rw [List.find?_append]
  cases hf : rs.find? (fun r => r.1 = j) with
  | none => by_cases h : i = j <;> simp [h]
  | some r => simp

theorem meters_append (rs : Ledger ι α) (i : ι) (v : α) :
    meters (rs ++ [(i, v)]) = insert i (meters rs) := by
  ext j
  simp [meters]

theorem notMem_meters_iff {rs : Ledger ι α} {i : ι} : i ∉ meters rs ↔ ∀ r ∈ rs, r.1 ≠ i := by
  simp only [meters, List.mem_toFinset, List.mem_map, not_exists, not_and, ne_eq]

theorem latest_eq_none_iff {rs : Ledger ι α} {i : ι} : latest rs i = none ↔ i ∉ meters rs := by
  rw [notMem_meters_iff, latest, Option.map_eq_none_iff, List.find?_eq_none]
  simp only [List.mem_reverse, decide_eq_true_eq, ne_eq]

theorem earliest_eq_none_iff {rs : Ledger ι α} {i : ι} :
    earliest rs i = none ↔ i ∉ meters rs := by
  rw [notMem_meters_iff, earliest, Option.map_eq_none_iff, List.find?_eq_none]
  simp only [decide_eq_true_eq, ne_eq]

theorem mem_of_latest {rs : Ledger ι α} {i : ι} {v : α} (h : latest rs i = some v) :
    (i, v) ∈ rs := by
  simp only [latest, Option.map_eq_some_iff] at h
  obtain ⟨⟨j, w⟩, hf, rfl⟩ := h
  have hj : j = i := by simpa using List.find?_some hf
  subst hj
  exact List.mem_reverse.mp (List.mem_of_find?_eq_some hf)

omit [DecidableEq ι] in
theorem Nondecreasing.of_append [LE α] {rs ts : Ledger ι α} (h : Nondecreasing (rs ++ ts)) :
    Nondecreasing rs :=
  (List.pairwise_append.mp h).1

theorem Nondecreasing.latest_le [LE α] {rs : Ledger ι α} {i : ι} {v w : α}
    (h : Nondecreasing (rs ++ [(i, v)])) (hw : latest rs i = some w) : w ≤ v :=
  (List.pairwise_append.mp h).2.2 _ (mem_of_latest hw) _ (List.mem_singleton.mpr rfl) rfl

/-- No reading of a meter exceeds its last one. -/
theorem Nondecreasing.le_latest [Preorder α] {rs : Ledger ι α} {i : ι} {v w : α}
    (h : Nondecreasing rs) (hv : (i, v) ∈ rs) (hw : latest rs i = some w) : v ≤ w := by
  induction rs using List.reverseRecOn generalizing w with
  | nil => cases hv
  | append_singleton rs r ih =>
    obtain ⟨j, u⟩ := r
    rw [latest_append] at hw
    split_ifs at hw with hj
    · cases hw
      rcases List.mem_append.mp hv with hv | hv
      · exact (List.pairwise_append.mp h).2.2 _ hv _ (List.mem_singleton.mpr rfl) hj.symm
      · cases List.mem_singleton.mp hv
        exact le_rfl
    · rcases List.mem_append.mp hv with hv | hv
      · exact ih h.of_append hv hw
      · cases List.mem_singleton.mp hv
        exact absurd rfl hj

/-! ### Sums over the meters -/

variable [AddCommGroup α]

/-- What meter `i` advanced while it was watched: its last reading minus its first. -/
def spread (rs : Ledger ι α) (i : ι) : α := (latest rs i).getD 0 - (earliest rs i).getD 0

/-- What the meters satisfying `p` advanced together. -/
def spreadSum (rs : Ledger ι α) (p : ι → Prop) [DecidablePred p] : α :=
  ∑ i ∈ (meters rs).filter p, spread rs i

/-- The last readings of the meters satisfying `p`, together. -/
def latestSum (rs : Ledger ι α) (p : ι → Prop) [DecidablePred p] : α :=
  ∑ i ∈ (meters rs).filter p, (latest rs i).getD 0

variable (p : ι → Prop) [DecidablePred p]

@[simp] theorem spreadSum_nil : spreadSum ([] : Ledger ι α) p = 0 := by
  simp [spreadSum, meters]

@[simp] theorem latestSum_nil : latestSum ([] : Ledger ι α) p = 0 := by
  simp [latestSum, meters]

/-- A sum over the meters after the value of the single meter `i` changed. -/
theorem sum_insert_meter (M : Finset ι) (i : ι) {f g : ι → α} (hne : ∀ j, i ≠ j → g j = f j)
    (hzero : i ∉ M → f i = 0) :
    ∑ j ∈ (insert i M).filter p, g j =
      ∑ j ∈ M.filter p, f j + if p i then g i - f i else 0 := by
  have hg : ∀ j, g j = f j + if i = j then g i - f i else 0 := by
    intro j
    by_cases h : i = j
    · subst h; simp
    · simp [h, hne j h]
  have hold : ∑ j ∈ (insert i M).filter p, f j = ∑ j ∈ M.filter p, f j := by
    symm
    refine Finset.sum_subset (Finset.filter_subset_filter p (Finset.subset_insert i M)) ?_
    intro j hj hnot
    simp only [Finset.mem_filter, Finset.mem_insert] at hj hnot
    obtain ⟨rfl | hj, hp⟩ := hj
    · exact hzero fun hM => hnot ⟨hM, hp⟩
    · exact absurd ⟨hj, hp⟩ hnot
  rw [Finset.sum_congr rfl fun j _ => hg j, Finset.sum_add_distrib, hold, Finset.sum_ite_eq]
  simp

theorem spread_eq_zero_of_notMem {rs : Ledger ι α} {i : ι} (h : i ∉ meters rs) :
    spread rs i = 0 := by
  simp [spread, latest_eq_none_iff.mpr h, earliest_eq_none_iff.mpr h]

theorem spread_append_of_ne (rs : Ledger ι α) {i j : ι} (v : α) (h : i ≠ j) :
    spread (rs ++ [(i, v)]) j = spread rs j := by
  simp [spread, latest_append, earliest_append, h]

/-- One more reading of a meter advances its spread by the distance from the previous one; the
first reading adds nothing. -/
theorem spread_append_self (rs : Ledger ι α) (i : ι) (v : α) :
    spread (rs ++ [(i, v)]) i - spread rs i = v - (latest rs i).getD v := by
  by_cases h : i ∈ meters rs
  · obtain ⟨w, hw⟩ := Option.ne_none_iff_exists'.mp (mt latest_eq_none_iff.mp (not_not.mpr h))
    obtain ⟨e, he⟩ := Option.ne_none_iff_exists'.mp (mt earliest_eq_none_iff.mp (not_not.mpr h))
    simp [spread, latest_append, earliest_append, hw, he]
  · have hl := latest_eq_none_iff.mpr h
    have he := earliest_eq_none_iff.mpr h
    simp [spread, latest_append, earliest_append, hl, he]

theorem spreadSum_append (rs : Ledger ι α) (i : ι) (v : α) :
    spreadSum (rs ++ [(i, v)]) p =
      spreadSum rs p + if p i then v - (latest rs i).getD v else 0 := by
  unfold spreadSum
  rw [meters_append, sum_insert_meter p (meters rs) i
    (fun j h => spread_append_of_ne rs v h) spread_eq_zero_of_notMem, spread_append_self]

theorem latestSum_append (rs : Ledger ι α) (i : ι) (v : α) :
    latestSum (rs ++ [(i, v)]) p =
      latestSum rs p + if p i then v - (latest rs i).getD 0 else 0 := by
  unfold latestSum
  have hne : ∀ j, i ≠ j → (latest (rs ++ [(i, v)]) j).getD 0 = (latest rs j).getD 0 := by
    intro j h
    simp [latest_append, h]
  have hzero : i ∉ meters rs → (latest rs i).getD 0 = 0 := by
    intro h
    simp [latest_eq_none_iff.mpr h]
  rw [meters_append, sum_insert_meter p (meters rs) i hne hzero]
  simp [latest_append]

/-! ### Covered charges -/

variable [LinearOrder α] [IsOrderedAddMonoid α]

/-- The charge `c` is paid for by the reading of meter `i`, if there is one: it charges nothing, or
at most the distance from the last reading of that meter. -/
def Covered (rs : Ledger ι α) (i : ι) (reading : Option α) (c : α) : Prop :=
  c ≤ 0 ∨ ∃ v w, reading = some v ∧ latest rs i = some w ∧ c ≤ v - w

/-- **A covered charge is paid for by the spread.** -/
theorem add_le_spreadSum {rs : Ledger ι α} {i : ι} {v c : α}
    (hmono : Nondecreasing (rs ++ [(i, v)])) (hc : Covered rs i (some v) c) :
    spreadSum rs p + (if p i then c else 0) ≤ spreadSum (rs ++ [(i, v)]) p := by
  rw [spreadSum_append]
  refine add_le_add_right ?_ _
  split_ifs with hp
  · rcases hc with hc | ⟨u, w, hu, hw, hc⟩
    · refine hc.trans (sub_nonneg.mpr ?_)
      cases hl : latest rs i with
      | none => exact le_rfl
      | some w => exact hmono.latest_le hl
    · cases hu
      simpa [hw] using hc
  · exact le_rfl

theorem spreadSum_le_append {rs : Ledger ι α} {i : ι} {v : α}
    (hmono : Nondecreasing (rs ++ [(i, v)])) :
    spreadSum rs p ≤ spreadSum (rs ++ [(i, v)]) p := by
  have h := add_le_spreadSum p hmono (Or.inl (le_refl (0 : α)))
  simpa using h

theorem spreadSum_nonneg {rs : Ledger ι α} (hmono : Nondecreasing rs) : 0 ≤ spreadSum rs p := by
  induction rs using List.reverseRecOn with
  | nil => rw [spreadSum_nil]
  | append_singleton rs r ih =>
    obtain ⟨i, v⟩ := r
    exact (ih hmono.of_append).trans (spreadSum_le_append p hmono)

/-- **A charge of at most the advance over the last reading, or over zero for a meter never read,
is paid for by the last readings.** -/
theorem add_le_latestSum {rs : Ledger ι α} {i : ι} {v c : α}
    (hc : c ≤ v - (latest rs i).getD 0) :
    latestSum rs p + (if p i then c else 0) ≤ latestSum (rs ++ [(i, v)]) p := by
  rw [latestSum_append]
  refine add_le_add_right ?_ _
  split_ifs with hp
  · exact hc
  · exact le_rfl

end Ledger

end Metering
