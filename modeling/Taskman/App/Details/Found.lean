import Taskman.App.Details.Collapse
import Taskman.App.Details.Kept
import Taskman.Collections.Nesting

/-!
# What a search of the tree shows

A search of the hierarchical order shows every match, and opens every row.  It keeps what is
recorded above a match, whatever its age; the rows are nested by the recorded parent that is not
known to be younger.  A process recorded as the parent that started after the match is shown and has
nothing under it.

* `Details.SearchShown` : every row matches or has a match nested under it, every match has a row,
  and no row is collapsed;
* `Details.AtDepthZero` : a process that is listed under no other one;
* `Details.LeadsToMatch` : under every process that is kept and does not match, a process is kept;
* `Details.searchShown_iff` : **the search shows the matches and what is above them exactly when the
  kept processes lead to a match**.
-/

namespace Taskman

namespace Details

open Search

/-- A search shows the matches and the rows above them. -/
structure SearchShown (host : PageHost) (snap : Snapshot) (rawSearch : Text) (sortCol : ColumnId)
    (collapsed : Finset ℕ) : Prop where
  /-- A row matches, or a row nested under it does. -/
  found : ∀ pre row post,
    buildRows host snap rawSearch sortCol .hierarchical collapsed = pre ++ row :: post →
      (Query.new host rawSearch).matchesProcess host row.item = true ∨
        ∃ below ∈ Outline.nested row post,
          (Query.new host rawSearch).matchesProcess host below.item = true
  /-- Every match has a row.  Without a search, all match, and rows can be collapsed. -/
  complete : (Query.new host rawSearch).isEmpty = false ∨ collapsed = ∅ →
    ∀ p ∈ snap.processes, p.synthetic = false →
      (Query.new host rawSearch).matchesProcess host p = true →
        ∃ row ∈ buildRows host snap rawSearch sortCol .hierarchical collapsed, row.item = p
  /-- Collapsed rows hide nothing while a search is active. -/
  opened : (Query.new host rawSearch).isEmpty = false →
    buildRows host snap rawSearch sortCol .hierarchical collapsed =
      buildRows host snap rawSearch sortCol .hierarchical ∅

/-- The tree starts from a process, and from nothing above it that was created earlier. -/
def AtDepthZero (snap : Snapshot) (p : ProcessEntry) : Prop :=
  TopLevel snap p ∧
    ∀ r, TopLevel snap r → Processes.creationOrder r p = .lt → ¬ Forest.Below (ParentOf snap) r p

/-- Of the processes recorded under one that is kept and does not match, one is kept that is not
known to be older, and is listed under it. -/
def LeadsToMatch (host : PageHost) (snap : Snapshot) (q : Query) : Prop :=
  ∀ p ∈ realProcesses snap, Kept host snap q p → q.matchesProcess host p = false →
    ∃ b, Kept host snap q b ∧ ParentOf snap p b ∧ ¬ AtDepthZero snap b

variable {host : PageHost} {snap : Snapshot} {q : Query} {sortCol : ColumnId}
  {collapsed : Finset ℕ}

/-! ### The rows at depth 0 -/

section Top

variable (h : Processes.Distinct snap.processes)

include h

theorem visible_of_parentOf (a b : ProcessEntry) (hab : ParentOf snap a b)
    (hb : decide (b.pid ∈ visiblePids host (realProcesses snap) q) = true) :
    decide (a.pid ∈ visiblePids host (realProcesses snap) q) = true :=
  (List.mem_filter.mp
    (parent_mem_members h hab.recorded (List.mem_filter.mpr ⟨hab.2.1, hb⟩))).2

theorem attached_eq_within :
    Attached host snap q = fun a b =>
      ParentOf snap a b ∧ decide (b.pid ∈ visiblePids host (realProcesses snap) q) = true := by
  funext a b
  refine propext ((attached_iff h).trans (and_congr_right fun hab => ?_))
  exact List.mem_filter.trans (and_iff_right hab.2.1)

/-- A search starts the tree from the processes it keeps of those it starts from without one. -/
theorem mem_sortedRoots_iff_kept {p : ProcessEntry} :
    p ∈ sortedRoots host snap q sortCol .hierarchical ↔
      TopLevel snap p ∧ p ∈ members host snap q := by
  have hmem : p ∈ members host snap q ↔ p ∈ realProcesses snap ∧
      decide (p.pid ∈ visiblePids host (realProcesses snap) q) = true := List.mem_filter
  have hbase : (p ∈ members host snap q ∧ ¬ ∃ y, Attached host snap q y p) ↔
      (p ∈ realProcesses snap ∧ ¬ ∃ y, ParentOf snap y p) ∧ p ∈ members host snap q := by
    constructor
    · rintro ⟨hp, hnone⟩
      exact ⟨⟨(hmem.mp hp).1, fun ⟨y, hy⟩ => hnone ⟨y, (attached_iff h).mpr ⟨hy, hp⟩⟩⟩, hp⟩
    · rintro ⟨⟨-, hnone⟩, hp⟩
      exact ⟨hp, fun ⟨y, hy⟩ => hnone ⟨y, ((attached_iff h).mp hy).1⟩⟩
  have hstands : Forest.StandsIn (Attached host snap q) (members host snap q) p ↔
      Forest.StandsIn (ParentOf snap) (realProcesses snap) p ∧ p ∈ members host snap q := by
    rw [attached_eq_within h, members, Forest.standsIn_within_iff (visible_of_parentOf h)]
    exact and_congr_right fun hp => (hmem.trans (and_iff_right hp.first.mem)).symm
  rw [mem_sortedRoots, mem_treeRoots_iff h, hbase, hstands, TopLevel, ← or_and_right]

/-- **A process that is kept has its row at depth 0 exactly when nothing the tree starts from is
above it and earlier.** -/
theorem depth_zero_iff_atDepthZero (hopen : ∀ p, isOpen q collapsed p = true) {p : ProcessEntry}
    (hp : p ∈ members host snap q) :
    (∃ row ∈ treeRows host snap q sortCol .hierarchical collapsed,
      row.item = p ∧ row.depth = 0) ↔ AtDepthZero snap p := by
  have hsorted := pairwise_sortedRoots host q h sortCol .hierarchical
  rw [processOrder_hierarchical] at hsorted
  have hasymm : ∀ a b : ProcessEntry, Processes.creationOrder a b = .lt →
      ¬ Processes.creationOrder b a = .lt := by
    intro a b hab hba
    have hgt : Processes.creationOrder b a = .gt := Std.OrientedCmp.gt_of_lt hab
    rw [hgt] at hba
    cases hba
  have hvisible := (List.mem_filter.mp hp).2
  have hbelow : ∀ r, Forest.Below (Attached host snap q) r p ↔
      Forest.Below (ParentOf snap) r p := by
    intro r
    rw [attached_eq_within h]
    exact Forest.below_within_iff (visible_of_parentOf h) hvisible
  rw [depth_zero_iff_atTop h hopen, Forest.atTop_iff hsorted hasymm, mem_sortedRoots_iff_kept h,
    and_iff_left hp, AtDepthZero]
  refine and_congr_right fun _ => forall_congr' fun r => ?_
  rw [mem_sortedRoots_iff_kept h, hbelow r]
  refine ⟨fun hnot hr hlt hrp => hnot ⟨hr, ?_⟩ hlt hrp, fun hnot hr => hnot hr.1⟩
  exact List.mem_filter.mpr ⟨mem_of_topLevel hr,
    Forest.keep_of_below (visible_of_parentOf h) hrp hvisible⟩

end Top

/-! ### Matches under every row -/

section Search

variable (h : Processes.Distinct snap.processes)

include h

theorem hung_treeRows :
    Outline.Hung (Attached host snap q) (treeRows host snap q sortCol .hierarchical collapsed) :=
  fun _ _ _ hsplit hdepth => treeRows_placed h hsplit hdepth

variable (sortCol) in
/-- **Where all is open, a match is on or under every row exactly when the kept processes lead to a
match.** -/
theorem found_iff_leadsToMatch (hopen : ∀ p, isOpen q collapsed p = true) :
    (∀ pre row post, treeRows host snap q sortCol .hierarchical collapsed = pre ++ row :: post →
      q.matchesProcess host row.item = true ∨
        ∃ below ∈ Outline.nested row post, q.matchesProcess host below.item = true) ↔
      LeadsToMatch host snap q := by
  have hnodup : ((treeRows host snap q sortCol .hierarchical collapsed).map
      Outline.Line.item).Nodup := by
    refine List.Nodup.of_map ProcessEntry.pid ?_
    rw [List.map_map]
    exact nodup_pids
  rw [(hung_treeRows h).found_iff hnodup (leftUnique_attached h)
    fun p => q.matchesProcess host p = true]
  constructor
  · intro hchild p hp hkept hlacks
    obtain ⟨row, hrow, rfl⟩ :
        ∃ row ∈ treeRows host snap q sortCol .hierarchical collapsed, row.item = p :=
      exists_row h hopen ((mem_members_iff h).mpr ⟨hp, hkept⟩)
    obtain ⟨below, hbelow, hdepth, hlink⟩ := hchild row hrow (by simp [hlacks])
    obtain ⟨hparent, hmem⟩ := (attached_iff h).mp hlink
    refine ⟨below.item, ((mem_members_iff h).mp hmem).2, hparent, fun htop => ?_⟩
    obtain ⟨row', hrow', heq, hzero⟩ := (depth_zero_iff_atDepthZero h hopen hmem).mpr htop
    obtain rfl : row' = below := List.inj_on_of_nodup_map hnodup hrow' hbelow heq
    exact hdepth.ne' hzero
  · intro hleads row hrow hlacks
    obtain ⟨hreal, hkept⟩ := (mem_members_iff h).mp (item_mem_members h row hrow)
    obtain ⟨b, hb, hparent, htop⟩ := hleads row.item hreal hkept (by simpa using hlacks)
    have hmem : b ∈ members host snap q := (mem_members_iff h).mpr ⟨hparent.2.1, hb⟩
    obtain ⟨below, hbelow, rfl⟩ :
        ∃ row ∈ treeRows host snap q sortCol .hierarchical collapsed, row.item = b :=
      exists_row h hopen hmem
    refine ⟨below, hbelow, Nat.pos_of_ne_zero fun hzero => htop ?_,
      (attached_iff h).mpr ⟨hparent, hmem⟩⟩
    exact (depth_zero_iff_atDepthZero h hopen hmem).mp ⟨below, hbelow, rfl, hzero⟩

end Search

/-- Without cycles, and where no recorded parent is known to be younger, the kept processes lead to
a match. -/
theorem leadsToMatch_of_acyclic
    (hage : ∀ a b, RecordedParent snap a b → isPlausibleParent a b = true)
    (hacyclic : ∀ c, ¬ Relation.TransGen (RecordedParent snap) c c) :
    LeadsToMatch host snap q := by
  rintro p - ⟨m, hm, hmatch, hpm⟩ hlacks
  rcases Relation.ReflTransGen.cases_head hpm with rfl | ⟨b, hpb, hbm⟩
  · rw [hmatch] at hlacks
    cases hlacks
  · have hne : p.pid ≠ b.pid := by
      intro heq
      refine hacyclic b (Relation.TransGen.single ⟨hpb.2.1, hpb.2.1, ?_⟩)
      rw [hpb.2.2, heq]
    have hparent : ParentOf snap p b := ⟨hpb.1, hpb.2.1, hpb.2.2, hne, hage p b hpb⟩
    refine ⟨b, ⟨m, hm, hmatch, hbm⟩, hparent, fun htop => ?_⟩
    rcases htop.1 with hbase | hstands
    · exact hbase.2 ⟨p, hparent⟩
    · obtain ⟨c, hc, -⟩ := hstands.cyclic
      exact hacyclic c (Relation.TransGen.mono (fun _ _ hab => hab.recorded) c c hc)

theorem isOpen_of_search (hq : q.isEmpty = false) (p : ProcessEntry) :
    isOpen q collapsed p = true := by
  simp [isOpen, hq]

/-- **A search shows the matches and what is above them exactly when the kept processes lead to a
match.** -/
theorem searchShown_iff (host : PageHost) (snap : Snapshot) (rawSearch : Text)
    (sortCol : ColumnId) (collapsed : Finset ℕ) (h : Processes.Distinct snap.processes) :
    SearchShown host snap rawSearch sortCol collapsed ↔
      LeadsToMatch host snap (Query.new host rawSearch) := by
  set q := Query.new host rawSearch
  -- a process that matches is a member, and an open tree shows all members
  have hcomplete : q.isEmpty = false ∨ collapsed = ∅ → ∀ p ∈ snap.processes, p.synthetic = false →
      q.matchesProcess host p = true →
        ∃ row ∈ buildRows host snap rawSearch sortCol .hierarchical collapsed, row.item = p := by
    intro hopen p hp hreal hmatch
    rw [buildRows_hierarchical]
    have hmem : p ∈ realProcesses snap := List.mem_filter.mpr ⟨hp, by simp [hreal]⟩
    refine exists_row h ?_ ((mem_members_iff h).mpr
      ⟨hmem, p, hmem, hmatch, Relation.ReflTransGen.refl⟩)
    rcases hopen with hq | rfl
    · exact isOpen_of_search hq
    · exact isOpen_empty
  -- while something is searched for, every row is open
  have hopened : q.isEmpty = false →
      buildRows host snap rawSearch sortCol .hierarchical collapsed =
        buildRows host snap rawSearch sortCol .hierarchical ∅ := by
    intro hq
    have hsame : isOpen q collapsed = isOpen q ∅ := by
      funext p
      rw [isOpen_of_search hq, isOpen_of_search hq]
    rw [buildRows_hierarchical, buildRows_hierarchical, treeRows, treeRows, hsame]
  cases hq : q.isEmpty with
  | true =>
    refine iff_of_true ⟨fun _ row _ _ => Or.inl (matchesProcess_of_isEmpty hq row.item), hcomplete,
      hopened⟩ fun p _ _ hlacks => ?_
    rw [matchesProcess_of_isEmpty hq p] at hlacks
    cases hlacks
  | false =>
    have hopen : ∀ p, isOpen q collapsed p = true := isOpen_of_search hq
    rw [← found_iff_leadsToMatch sortCol h hopen]
    constructor
    · intro hshown pre row post hsplit
      exact hshown.found pre row post (buildRows_hierarchical.trans hsplit)
    · intro hfound
      exact ⟨fun pre row post hsplit =>
        hfound pre row post (buildRows_hierarchical.symm.trans hsplit), hcomplete, hopened⟩

/-- A process recorded under a pid that was taken over by a younger one. -/
def orphan : ProcessEntry := { pid := 2, ppid := some 1, name := ['b'], startEpochS := some 5 }

/-- The process that took over the pid. -/
def successor : ProcessEntry := { pid := 1, name := ['a'], startEpochS := some 10 }

/-- A search for the process shows the younger one beside it, with nothing under it. -/
theorem successor_shown_alone :
    ¬ ∀ (host : PageHost) (snap : Snapshot) (rawSearch : Text) (sortCol : ColumnId)
      (collapsed : Finset ℕ), Processes.Distinct snap.processes →
        SearchShown host snap rawSearch sortCol collapsed := by
  intro hlaw
  have hshown := hlaw Processes.asciiHost { processes := [successor, orphan] } ['b'] .name ∅
    (by decide)
  have hrows : buildRows Processes.asciiHost { processes := [successor, orphan] } ['b'] .name
      .hierarchical ∅ =
        [rowFromProcess orphan 0 false] ++ rowFromProcess successor 0 false :: [] := by
    decide +kernel
  have hfound := hshown.found _ _ _ hrows
  revert hfound
  decide +kernel

/-- The process that did start it. -/
def launcher : ProcessEntry := { pid := 1, name := ['a'], startEpochS := some 1 }

/-- A search for the process shows it under the one that started it. -/
theorem searchShown_iff_launcher :
    SearchShown Processes.asciiHost { processes := [launcher, orphan] } ['b'] .name ∅ := by
  refine (searchShown_iff Processes.asciiHost { processes := [launcher, orphan] } ['b'] .name ∅
    (by decide)).mpr fun p hp _ hnot => ?_
  have hreal : realProcesses { processes := [launcher, orphan] } = [launcher, orphan] := by
    decide +kernel
  have hlink : ParentOf { processes := [launcher, orphan] } launcher orphan := by
    unfold ParentOf
    decide +kernel
  rw [hreal] at hp
  rcases List.mem_pair.mp hp with rfl | rfl
  · refine ⟨orphan, ⟨orphan, by decide +kernel, by decide +kernel, .refl⟩, hlink, ?_⟩
    rintro ⟨⟨-, hroot⟩ | ⟨⟨c, hcycle, -⟩, -⟩, -⟩
    · exact hroot ⟨launcher, hlink⟩
    · -- the only link leads from the first process to the second
      refine Forest.not_onCycle_of_lt ProcessEntry.pid (fun a b hab => ?_) c hcycle
      obtain ⟨ha, hb, hppid, -⟩ := hab
      rw [hreal] at ha hb
      rcases List.mem_pair.mp hb with rfl | rfl
      · cases hppid
      · obtain rfl | rfl := List.mem_pair.mp ha
        · decide
        · cases hppid
  · exact absurd hnot (by decide +kernel)

end Details

end Taskman
