import Taskman.App.Details.Tree
import Taskman.Collections.Collapse

/-!
# Collapsing a row

Collapsing a row hides what is nested under it and nothing else, as long as nothing else lists what
is hidden.  Hidden rows are not marked as visited, so a second stand-in for a component, which was
listed in its place under the collapsed row, comes up again at depth 0.

* `Details.TopLevel` : a process the tree starts from;
* `Details.ComesBack` : what is hidden by collapsing a row and listed again at depth 0;
* `Details.collapse_row_iff` : **collapsing a row hides exactly what is nested under it, exactly
  when nothing comes back**.
-/

namespace Taskman

namespace Details

open Search

/-- A process without a recorded and plausible parent, or one that stands in for such a process. -/
def TopLevel (snap : Snapshot) (p : ProcessEntry) : Prop :=
  (p ∈ realProcesses snap ∧ ¬ ∃ y, ParentOf snap y p) ∨
    Forest.StandsIn (ParentOf snap) (realProcesses snap) p

/-- A process and its parent, whose row is not collapsed. -/
def OpenLink (snap : Snapshot) (collapsed : Finset ℕ) (a b : ProcessEntry) : Prop :=
  a.pid ∉ collapsed ∧ ParentOf snap a b

/-- Something the tree starts from is also listed under a process, on a way that leads from an
earlier start through rows that are not collapsed and, below the process, past no other start. -/
def ComesBack (snap : Snapshot) (collapsed : Finset ℕ) (pid : ℕ) : Prop :=
  ∃ p r t, p ∈ realProcesses snap ∧ p.pid = pid ∧ TopLevel snap r ∧ TopLevel snap t ∧ t ≠ p ∧
    Relation.ReflTransGen (OpenLink snap collapsed) r p ∧
    (∃ z, Relation.ReflTransGen (fun a b => OpenLink snap collapsed a b ∧ ¬ TopLevel snap b) p z ∧
      OpenLink snap collapsed z t) ∧
    Processes.creationOrder r t = .lt

/-- Two relations that agree on a closed set of starts lead to the same. -/
theorem reflTransGen_iff_of_agree {α : Type*} {P : α → Prop} {r s : α → α → Prop}
    (hagree : ∀ a b, P a → (r a b ↔ s a b)) (hclosed : ∀ a b, P a → r a b → P b) {a b : α}
    (ha : P a) : Relation.ReflTransGen r a b ↔ Relation.ReflTransGen s a b := by
  constructor
  · intro h
    have hboth : Relation.ReflTransGen s a b ∧ P b := by
      induction h with
      | refl => exact ⟨Relation.ReflTransGen.refl, ha⟩
      | tail _ hstep ih =>
        exact ⟨ih.1.tail ((hagree _ _ ih.2).mp hstep), hclosed _ _ ih.2 hstep⟩
    exact hboth.1
  · intro h
    have hboth : Relation.ReflTransGen r a b ∧ P b := by
      induction h with
      | refl => exact ⟨Relation.ReflTransGen.refl, ha⟩
      | tail _ hstep ih =>
        have hr := (hagree _ _ ih.2).mpr hstep
        exact ⟨ih.1.tail hr, hclosed _ _ ih.2 hr⟩
    exact hboth.1

section Rows

variable {host : PageHost} {snap : Snapshot} {q : Query} {sortCol : ColumnId}
  {collapsed : Finset ℕ}

theorem isOpen_insert (hq : q.isEmpty = true) (pid : ℕ) :
    isOpen q (insert pid collapsed) =
      Outline.collapse ProcessEntry.pid (isOpen q collapsed) pid := by
  funext p
  simp [isOpen, Outline.collapse, hq, Bool.and_comm]

variable (h : Processes.Distinct snap.processes) (hq : q.isEmpty = true)

include h hq

/-- Without a search the walk follows the parents whose rows are open. -/
theorem link_iff_openLink {a b : ProcessEntry} (ha : a ∈ realProcesses snap) :
    Outline.Link (siblings host snap q sortCol .hierarchical) (isOpen q collapsed) a b ↔
      OpenLink snap collapsed a b := by
  have hmem : a ∈ members host snap q := by
    rw [members_of_isEmpty hq]
    exact ha
  rw [link_iff hmem, attached_of_isEmpty h hq]
  simp [OpenLink, isOpen, hq]

theorem mem_sortedRoots_iff_topLevel {p : ProcessEntry} :
    p ∈ sortedRoots host snap q sortCol .hierarchical ↔ TopLevel snap p := by
  rw [mem_sortedRoots, mem_treeRoots_iff h, attached_of_isEmpty h hq, members_of_isEmpty hq,
    TopLevel]

omit h hq in
theorem mem_of_topLevel {p : ProcessEntry} (hp : TopLevel snap p) : p ∈ realProcesses snap :=
  hp.elim (fun hbase => hbase.1) fun hstands => hstands.first.mem

/-- What comes back, in the words of the walk. -/
theorem passes_iff {p t : ProcessEntry} (hp : p ∈ realProcesses snap) :
    Outline.Passes (siblings host snap q sortCol .hierarchical) (isOpen q collapsed)
        (sortedRoots host snap q sortCol .hierarchical) p t ↔
      ∃ z, Relation.ReflTransGen
        (fun a b => OpenLink snap collapsed a b ∧ ¬ TopLevel snap b) p z ∧
          OpenLink snap collapsed z t := by
  have hagree : ∀ a b, a ∈ realProcesses snap →
      ((Outline.Link (siblings host snap q sortCol .hierarchical) (isOpen q collapsed) a b ∧
          b ∉ sortedRoots host snap q sortCol .hierarchical) ↔
        OpenLink snap collapsed a b ∧ ¬ TopLevel snap b) := fun a b ha =>
    and_congr (link_iff_openLink h hq ha) (not_congr (mem_sortedRoots_iff_topLevel h hq))
  have hclosed : ∀ a b, a ∈ realProcesses snap →
      Outline.Link (siblings host snap q sortCol .hierarchical) (isOpen q collapsed) a b ∧
        b ∉ sortedRoots host snap q sortCol .hierarchical → b ∈ realProcesses snap :=
    fun a b ha hstep => ((hagree a b ha).mp hstep).1.2.2.1
  constructor
  · rintro ⟨z, hpz, hzt⟩
    have hpz' := (reflTransGen_iff_of_agree hagree hclosed hp).mp hpz
    have hz : z ∈ realProcesses snap := by
      rcases Relation.ReflTransGen.cases_tail hpz' with rfl | ⟨y, -, hy⟩
      · exact hp
      · exact hy.1.2.2.1
    exact ⟨z, hpz', (link_iff_openLink h hq hz).mp hzt⟩
  · rintro ⟨z, hpz, hzt⟩
    exact ⟨z, (reflTransGen_iff_of_agree hagree hclosed hp).mpr hpz,
      (link_iff_openLink h hq hzt.2.1).mpr hzt⟩

/-- What the walk reaches without a search. -/
theorem reaches_iff {r p : ProcessEntry} (hr : r ∈ realProcesses snap) :
    Outline.Reaches (siblings host snap q sortCol .hierarchical) (isOpen q collapsed) r p ↔
      Relation.ReflTransGen (OpenLink snap collapsed) r p := by
  have hagree : ∀ a b, a ∈ realProcesses snap →
      (Outline.Link (siblings host snap q sortCol .hierarchical) (isOpen q collapsed) a b ↔
        OpenLink snap collapsed a b) := fun a b ha => link_iff_openLink h hq ha
  exact reflTransGen_iff_of_agree hagree
    (fun a b ha hstep => ((hagree a b ha).mp hstep).2.2.1) hr

/-- A root comes before another one where it was created earlier. -/
theorem sublist_roots_iff {r t : ProcessEntry} (hr : TopLevel snap r) (ht : TopLevel snap t) :
    [r, t].Sublist (sortedRoots host snap q sortCol .hierarchical) ↔
      Processes.creationOrder r t = .lt := by
  have hsorted := pairwise_sortedRoots host q h sortCol .hierarchical
  rw [processOrder_hierarchical] at hsorted
  refine sublist_pair_iff hsorted (fun a b hab hba => ?_)
    ((mem_sortedRoots_iff_topLevel h hq).mpr hr) ((mem_sortedRoots_iff_topLevel h hq).mpr ht)
  have hgt : Processes.creationOrder b a = .gt := Std.OrientedCmp.gt_of_lt hab
  rw [hgt] at hba
  cases hba

end Rows

/-- **Collapsing a row hides exactly what is nested under it, exactly when nothing comes back.** -/
theorem collapse_row_iff (host : PageHost) (snap : Snapshot) (rawSearch : Text)
    (sortCol : ColumnId) (collapsed : Finset ℕ) (pid : ℕ)
    (h : Processes.Distinct snap.processes) (hq : (Query.new host rawSearch).isEmpty = true) :
    buildRows host snap rawSearch sortCol .hierarchical (insert pid collapsed) =
        Outline.dropNested ProcessEntry.pid pid
          (buildRows host snap rawSearch sortCol .hierarchical collapsed) ↔
      ¬ ComesBack snap collapsed pid := by
  rw [buildRows_hierarchical, buildRows_hierarchical]
  set q := Query.new host rawSearch
  have hmembers : members host snap q = realProcesses snap := members_of_isEmpty hq
  obtain ⟨V, hrun⟩ := run_treeRows host snap q sortCol .hierarchical collapsed
  obtain ⟨V', hrun'⟩ := run_treeRows host snap q sortCol .hierarchical (insert pid collapsed)
  rw [isOpen_insert hq] at hrun'
  -- a pid that no process has collapses nothing, and nothing comes back
  by_cases hpid : ∃ p ∈ realProcesses snap, p.pid = pid
  · obtain ⟨p, hp, rfl⟩ := hpid
    have hnodup : (sortedRoots host snap q sortCol .hierarchical).Nodup :=
      (sortBy_perm _ _).nodup_iff.mpr ((distinct_treeRoots h).of_map _)
    have hdistinct : Processes.Distinct (members host snap q) := distinct_members h
    rw [Outline.collapse_iff hdistinct mem_of_mem_siblings
      (fun a a' b hb hb' =>
        Option.some.inj ((mem_siblings.mp hb).2.symm.trans (mem_siblings.mp hb').2))
      (fun r hr => mem_members_of_root h hr) hnodup hrun (hmembers ▸ hp) hrun']
    refine not_congr ?_
    constructor
    · rintro ⟨r, hr, t, ht, hne, hreach, hpass, hsub⟩
      have hr' := (mem_sortedRoots_iff_topLevel h hq).mp hr
      have ht' := (mem_sortedRoots_iff_topLevel h hq).mp ht
      exact ⟨p, r, t, hp, rfl, hr', ht', hne, (reaches_iff h hq (mem_of_topLevel hr')).mp hreach,
        (passes_iff h hq hp).mp hpass, (sublist_roots_iff h hq hr' ht').mp hsub⟩
    · rintro ⟨p', r, t, hp', hpid, hr, ht, hne, hreach, hpass, hlt⟩
      obtain rfl : p' = p := Multimap.eq_of_key (distinct_realProcesses h) hp' hp hpid
      exact ⟨r, (mem_sortedRoots_iff_topLevel h hq).mpr hr, t,
        (mem_sortedRoots_iff_topLevel h hq).mpr ht, hne,
        (reaches_iff h hq (mem_of_topLevel hr)).mpr hreach, (passes_iff h hq hp').mpr hpass,
        (sublist_roots_iff h hq hr ht).mpr hlt⟩
  · refine iff_of_true (Outline.collapse_unlisted hrun (fun row hrow heq => ?_) hrun') ?_
    · exact hpid ⟨row.item, hmembers ▸ item_mem_members h row hrow, heq⟩
    · rintro ⟨p, r, t, hp, heq, -⟩
      exact hpid ⟨p, hp, heq⟩

/-- Two processes under each other, and before them in the snapshot a younger one under the
first. -/
def youngTailFirst : Snapshot := { processes := [child 3 1, child 1 2, child 2 1] }

/-- What hangs off the cycle comes back at depth 0 when the row above it is collapsed. -/
theorem tail_comes_back :
    ¬ ∀ (host : PageHost) (snap : Snapshot) (rawSearch : Text) (sortCol : ColumnId)
      (collapsed : Finset ℕ) (pid : ℕ), Processes.Distinct snap.processes →
        (Query.new host rawSearch).isEmpty = true →
          buildRows host snap rawSearch sortCol .hierarchical (insert pid collapsed) =
            Outline.dropNested ProcessEntry.pid pid
              (buildRows host snap rawSearch sortCol .hierarchical collapsed) := by
  intro hlaw
  have heq := hlaw Processes.asciiHost youngTailFirst [] .name ∅ 1 (by decide) (by decide)
  revert heq
  decide +kernel

theorem collapse_row_iff_youngTailFirst :
    buildRows Processes.asciiHost youngTailFirst [] .name .hierarchical (insert 1 ∅) =
        Outline.dropNested ProcessEntry.pid 1
          (buildRows Processes.asciiHost youngTailFirst [] .name .hierarchical ∅) ↔
      ¬ ComesBack youngTailFirst ∅ 1 :=
  collapse_row_iff Processes.asciiHost youngTailFirst [] .name ∅ 1 (by decide) (by decide)

end Details

end Taskman
