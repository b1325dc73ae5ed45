import Taskman.App.Details.Kept

/-!
# Enumeration order on the Details page

Siblings, roots and flat lists are sorted by an order that tells any two processes apart, so the
order in which the processes are enumerated matters only for what is chosen before sorting: the
process that stands in for a component without a natural root.

* `Details.treeRows_eq_of_acyclic` : **without a cycle two enumerations give the same tree**;
* `Details.rows_of_enumeration_iff` : **the rows are the same for every enumeration exactly when no
  cycle of recorded and plausible parents is shown**.
-/

namespace Taskman

namespace Details

open Search

variable {host : PageHost} {snap snap' : Snapshot} {q : Query} {sortCol : ColumnId}
  {order : SortOrder}

section Perm

variable (hperm : snap.processes.Perm snap'.processes) (h : Processes.Distinct snap.processes)

include hperm

theorem realProcesses_perm : (realProcesses snap).Perm (realProcesses snap') := hperm.filter _

theorem distinct_of_perm (h : Processes.Distinct snap.processes) :
    Processes.Distinct snap'.processes :=
  (hperm.map ProcessEntry.pid).nodup_iff.mp h

include h

theorem byPid_eq_of_perm :
    Processes.byPid (realProcesses snap) = Processes.byPid (realProcesses snap') := by
  have hmem : ∀ {s s' : Snapshot}, s.processes.Perm s'.processes →
      Processes.Distinct s'.processes → ∀ {k p}, Processes.byPid (realProcesses s) k = some p →
        Processes.byPid (realProcesses s') k = some p := by
    intro s s' hperm h' k p hk
    obtain ⟨hp, rfl⟩ := Processes.mem_of_byPid hk
    exact byPid_realProcesses h' ((realProcesses_perm hperm).mem_iff.mp hp)
  funext k
  refine Option.ext fun p => ⟨hmem hperm (distinct_of_perm hperm h), hmem hperm.symm h⟩

theorem ancestors_eq_of_perm :
    ancestors (realProcesses snap) = ancestors (realProcesses snap') := by
  have hascend : ascend (realProcesses snap) = ascend (realProcesses snap') := by
    funext s
    rw [ascend, ascend, byPid_eq_of_perm hperm h]
  funext pid
  rw [ancestors, ancestors, hascend, (realProcesses_perm hperm).length_eq]

theorem visiblePids_eq_of_perm :
    visiblePids host (realProcesses snap) q = visiblePids host (realProcesses snap') q := by
  have hreal : ∀ p, p ∈ realProcesses snap ↔ p ∈ realProcesses snap' :=
    fun p => (realProcesses_perm hperm).mem_iff
  ext k
  simp only [visiblePids, ancestors_eq_of_perm hperm h]
  split <;> simp [hreal]

theorem parentPid_eq_of_perm : parentPid host snap q = parentPid host snap' q := by
  funext p
  rw [parentPid, parentPid, visiblePids_eq_of_perm hperm h, byPid_eq_of_perm hperm h]

theorem members_perm : (members host snap q).Perm (members host snap' q) := by
  rw [members, members, visiblePids_eq_of_perm hperm h]
  exact (realProcesses_perm hperm).filter _

theorem attached_eq_of_perm : Attached host snap q = Attached host snap' q := by
  funext a b
  simp only [Attached, Processes.Linked, Multimap.Linked, parentPid_eq_of_perm hperm h,
    (members_perm hperm h).mem_iff]

theorem siblings_eq_of_perm :
    siblings host snap q sortCol order = siblings host snap' q sortCol order := by
  funext p
  have hkids : ((childrenMap host snap q).get p.pid).Perm
      ((childrenMap host snap' q).get p.pid) := by
    rw [childrenMap, childrenMap, Multimap.get_ofLinks, Multimap.get_ofLinks,
      parentPid_eq_of_perm hperm h]
    exact (members_perm hperm h).filter _
  refine sortProcesses_eq_of_perm hkids ?_
  rw [childrenMap, Multimap.get_ofLinks]
  exact (distinct_members h).sublist (List.filter_sublist.map _)

/-! ### Flat orders -/

theorem flatRows_eq_of_perm :
    flatRows host snap q sortCol order = flatRows host snap' q sortCol order := by
  rw [flatRows, flatRows, sortProcesses_eq_of_perm (hperm.filter _)
    (h.sublist (List.filter_sublist.map _))]

/-! ### Without a cycle -/

/-- Without a cycle the roots are the processes without a parent, however enumerated. -/
theorem sortedRoots_eq_of_acyclic (hacyclic : ¬ ∃ c, Forest.OnCycle (Attached host snap q) c) :
    sortedRoots host snap q sortCol order = sortedRoots host snap' q sortCol order := by
  have h' := distinct_of_perm hperm h
  have hattached : Attached host snap q = _ := attached_eq_of_perm hperm h
  refine sortProcesses_eq_of_perm ?_ (distinct_treeRoots h)
  refine (List.perm_ext_iff_of_nodup ((distinct_treeRoots h).of_map _)
    ((distinct_treeRoots h').of_map _)).mpr fun p => ?_
  have hstands : ∀ {l}, ¬ Forest.StandsIn (Attached host snap q) l p :=
    fun hs => hacyclic (hs.cyclic.imp fun _ hc => hc.1)
  rw [mem_treeRoots_iff h, mem_treeRoots_iff h', ← hattached, (members_perm hperm h).mem_iff,
    or_iff_left hstands, or_iff_left hstands]

/-- **Without a cycle two enumerations give the same tree.** -/
theorem treeRows_eq_of_acyclic (hacyclic : ¬ ∃ c, Forest.OnCycle (Attached host snap q) c)
    (collapsed : Finset ℕ) :
    treeRows host snap q sortCol order collapsed =
      treeRows host snap' q sortCol order collapsed := by
  obtain ⟨V, hrun⟩ := run_treeRows host snap q sortCol order collapsed
  obtain ⟨V', hrun'⟩ := run_treeRows host snap' q sortCol order collapsed
  rw [← siblings_eq_of_perm hperm h, ← sortedRoots_eq_of_acyclic hperm h hacyclic] at hrun'
  exact (hrun.unique hrun').1

end Perm

/-! ### With a cycle -/

section Cycle

variable (h : Processes.Distinct snap.processes)

include h

variable (sortCol order) in
/-- A process on a cycle that is enumerated first is shown at depth 0. -/
theorem first_at_top {c : ProcessEntry} {rest : List ProcessEntry}
    (hsplit : members host snap q = c :: rest) (hc : Forest.OnCycle (Attached host snap q) c)
    (collapsed : Finset ℕ) :
    ∃ row ∈ treeRows host snap q sortCol order collapsed, row.item = c ∧ row.depth = 0 := by
  have hstands : Forest.StandsIn (Attached host snap q) (members host snap q) c :=
    ⟨⟨c, hc, Relation.ReflTransGen.refl⟩, [], rest, hsplit, by simp⟩
  have hnodup : (sortedRoots host snap q sortCol order).Nodup :=
    ((sortBy_perm _ _).nodup_iff.mpr ((distinct_treeRoots h).of_map _))
  obtain ⟨done, after, heq, hnot⟩ := Forest.atTop_of_standsIn (leftUnique_attached h)
    mem_of_attached (mem_unlinked_iff h)
    (fun p => mem_sortedRoots.trans (iff_of_eq (congrArg (p ∈ ·) (treeRoots_eq h)))) hnodup hstands
    hc
  refine (depth_zero_iff h).mpr ⟨done, after, heq, fun r hr hreach => hnot r hr ?_⟩
  have hroot : r ∈ sortedRoots host snap q sortCol order :=
    heq ▸ List.mem_append_left _ hr
  exact (below_of_reaches (mem_members_of_root h hroot) hreach).1

variable (sortCol order) in
/-- A process on a cycle is not shown at depth 0 where another one on it is enumerated first. -/
theorem not_at_top {c y : ProcessEntry} {rest : List ProcessEntry}
    (hsplit : members host snap q = y :: rest) (hne : y ≠ c)
    (hyc : Attached host snap q y c) (collapsed : Finset ℕ) :
    ¬ ∃ row ∈ treeRows host snap q sortCol order collapsed, row.item = c ∧ row.depth = 0 := by
  rw [depth_zero_iff h]
  rintro ⟨done, after, heq, -⟩
  have hroot : c ∈ sortedRoots host snap q sortCol order := by
    simp [heq]
  have hstand := ((mem_treeRoots_iff h).mp (mem_sortedRoots.mp hroot)).resolve_left
    fun hbase => hbase.2 ⟨y, hyc⟩
  obtain ⟨s, t, hlisted, hfirst⟩ := hstand.first
  rw [hsplit] at hlisted
  cases s with
  | nil => exact hne (List.cons.inj hlisted).1
  | cons x s =>
    obtain rfl : y = x := (List.cons.inj hlisted).1
    exact hfirst y (by simp) (Relation.ReflTransGen.single hyc)

/-- Some enumeration shows a process first. -/
theorem exists_first_enumeration {c : ProcessEntry} (hc : c ∈ members host snap q) :
    ∃ s : Snapshot, snap.processes.Perm s.processes ∧
      ∃ rest, members host s q = c :: rest := by
  have hreal : c ∈ realProcesses snap := (List.mem_filter.mp hc).1
  have hmem : c ∈ snap.processes := (List.mem_filter.mp hreal).1
  obtain ⟨l, l', hsplit⟩ := List.append_of_mem hmem
  let s : Snapshot := { snap with processes := c :: (l ++ l') }
  have hperm : snap.processes.Perm s.processes := by
    rw [hsplit]
    exact List.perm_middle
  have hvisible : c.pid ∈ visiblePids host (realProcesses s) q := by
    rw [← visiblePids_eq_of_perm hperm h]
    simpa using (List.mem_filter.mp hc).2
  have hkept : (!c.synthetic) = true := (List.mem_filter.mp hreal).2
  have hreals : realProcesses s = c :: (l ++ l').filter fun p => !p.synthetic :=
    List.filter_cons_of_pos hkept
  let shown : ProcessEntry → Bool := fun p =>
    decide (p.pid ∈ visiblePids host (realProcesses s) q)
  have hmembers : members host s q = (realProcesses s).filter shown := rfl
  have hshown : shown c = true := decide_eq_true hvisible
  rw [hreals, List.filter_cons_of_pos hshown] at hmembers
  exact ⟨s, hperm, _, hmembers⟩

end Cycle

/-- **The rows are the same for every enumeration exactly when no cycle of recorded and plausible
parents is shown.** -/
theorem rows_of_enumeration_iff (host : PageHost) (snap : Snapshot) (rawSearch : Text)
    (sortCol : ColumnId) (order : SortOrder) (collapsed : Finset ℕ)
    (h : Processes.Distinct snap.processes) :
    (∀ snap' : Snapshot, snap.processes.Perm snap'.processes →
      buildRows host snap' rawSearch sortCol order collapsed =
        buildRows host snap rawSearch sortCol order collapsed) ↔
      order = .hierarchical → ¬ ∃ c, Forest.OnCycle (ParentOf snap) c ∧
        Kept host snap (Query.new host rawSearch) c := by
  by_cases hflat : order ≠ .hierarchical
  · refine iff_of_true (fun snap' hperm => ?_) fun heq => absurd heq hflat
    rw [buildRows_of_flat hflat, buildRows_of_flat hflat, flatRows_eq_of_perm hperm h]
  obtain rfl : order = .hierarchical := not_not.mp hflat
  simp only [buildRows_hierarchical, ← onCycle_attached_iff h, true_imp_iff]
  constructor
  · rintro hsame ⟨c, hc⟩
    obtain ⟨y, hyc⟩ := hc.parent
    have hne : y ≠ c := fun heq =>
      ((linked_iff h).mp hyc).1.2.2.2.1 (congrArg ProcessEntry.pid heq)
    obtain ⟨s, hs, rest, hfirst⟩ := exists_first_enumeration h hyc.2.1
    obtain ⟨s', hs', rest', hfirst'⟩ := exists_first_enumeration h hyc.1
    have htop := first_at_top sortCol .hierarchical
      (distinct_of_perm hs h) hfirst (attached_eq_of_perm hs h ▸ hc) collapsed
    have hnot := not_at_top sortCol .hierarchical
      (distinct_of_perm hs' h) hfirst' hne (attached_eq_of_perm hs' h ▸ hyc) collapsed
    rw [hsame s hs] at htop
    rw [hsame s' hs'] at hnot
    exact hnot htop
  · intro hacyclic snap' hperm
    exact (treeRows_eq_of_acyclic hperm h hacyclic collapsed).symm

/-- Two processes under each other, listed either way. -/
theorem cycle_in_two_orders :
    ¬ ∀ snap snap' : Snapshot, snap.processes.Perm snap'.processes →
      Processes.Distinct snap.processes → ∀ rawSearch sortCol order collapsed,
        buildRows Processes.asciiHost snap' rawSearch sortCol order collapsed =
          buildRows Processes.asciiHost snap rawSearch sortCol order collapsed := by
  intro hsame
  have heq := hsame { processes := [child 1 2, child 2 1] } { processes := [child 2 1, child 1 2] }
    (List.Perm.swap _ _ _) (by decide) [] .name .hierarchical ∅
  revert heq
  decide +kernel

theorem rows_of_enumeration_iff_cycle :
    (∀ snap' : Snapshot, [child 1 2, child 2 1].Perm snap'.processes →
      buildRows Processes.asciiHost snap' [] .name .hierarchical ∅ =
        buildRows Processes.asciiHost { processes := [child 1 2, child 2 1] } [] .name
          .hierarchical ∅) ↔
      SortOrder.hierarchical = .hierarchical → ¬ ∃ c,
        Forest.OnCycle (ParentOf { processes := [child 1 2, child 2 1] }) c ∧
          Kept Processes.asciiHost { processes := [child 1 2, child 2 1] }
            (Query.new Processes.asciiHost []) c :=
  rows_of_enumeration_iff Processes.asciiHost { processes := [child 1 2, child 2 1] } [] .name
    .hierarchical ∅ (by decide)

end Details

end Taskman
