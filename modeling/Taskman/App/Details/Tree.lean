import Taskman.App.Details.Rows

/-!
# The tree shows every process once

Without a search and with nothing collapsed the tree lists every process, once, under the row of its
recorded and plausible parent.  A component of processes that are all recorded under one another has
no natural root.  The page lets the process that comes first in the snapshot stand in for it, and
then sorts the roots by creation; a process that hangs off the cycle and comes first in the snapshot
stands in as well, and stays at the top where it was created earlier.

* `Details.TreeShown` : what the tree shows of a snapshot;
* `Details.treeShown_iff` : **the tree is right exactly when in every such component the stand-in on
  the cycle was created before those that hang off it**.
-/

namespace Taskman

namespace Details

open Search

variable {host : PageHost} {snap : Snapshot} {q : Query} {sortCol : ColumnId}

/-! ### Without a search -/

theorem matchesProcess_of_isEmpty (hq : q.isEmpty = true) (p : ProcessEntry) :
    q.matchesProcess host p = true := if_pos hq

theorem members_of_isEmpty (hq : q.isEmpty = true) : members host snap q = realProcesses snap := by
  refine List.filter_eq_self.mpr fun p hp => ?_
  have hmatch : (realProcesses snap).filter (q.matchesProcess host) = realProcesses snap :=
    List.filter_eq_self.mpr fun p _ => matchesProcess_of_isEmpty hq p
  simpa [visiblePids, hq, hmatch] using ⟨p, hp, rfl⟩

theorem attached_of_isEmpty (h : Processes.Distinct snap.processes) (hq : q.isEmpty = true) :
    Attached host snap q = ParentOf snap := by
  funext a b
  have hiff : Attached host snap q a b ↔ _ := linked_iff h
  rw [members_of_isEmpty hq] at hiff
  exact propext (hiff.trans (and_iff_left_of_imp fun hparent => ⟨hparent.1, hparent.2.1⟩))

theorem isOpen_empty (p : ProcessEntry) : isOpen q ∅ p = true := by
  simp [isOpen]

/-! ### What the tree shows -/

/-- The walk over the tree after its last turn. -/
def treeWalk (host : PageHost) (snap : Snapshot) (q : Query) (sortCol : ColumnId)
    (order : SortOrder) (collapsed : Finset ℕ) :
    (Finset ℕ × List Row) × List (ProcessEntry × ℕ) :=
  While.run (Worklist.pop (Outline.visit ProcessEntry.pid (siblings host snap q sortCol order)
      (isOpen q collapsed)))
    (treeFuel host snap q sortCol order)
    ((∅, []), Outline.start (sortedRoots host snap q sortCol order))

theorem treeRows_eq_treeWalk (order : SortOrder) (collapsed : Finset ℕ) :
    treeRows host snap q sortCol order collapsed =
      (treeWalk host snap q sortCol order collapsed).1.2 := rfl

/-- A walk that marks what is listed under a root, after its last turn. -/
def markWalk (children : Multimap ℕ ProcessEntry) (covered : Finset ℕ) (root : ℕ) :
    (Finset ℕ × List ℕ) × List ℕ :=
  While.run (Worklist.pop (Worklist.visitNew id (Processes.kidPids children)))
    (children.entries.length + 1) ((covered, []), [root])

theorem markTreeComponent_eq_markWalk (children : Multimap ℕ ProcessEntry) (covered : Finset ℕ)
    (root : ℕ) : markTreeComponent children covered root = (markWalk children covered root).1.1 :=
  rfl

/-- The rows of the hierarchical order with nothing collapsed. -/
abbrev openRows (host : PageHost) (snap : Snapshot) (rawSearch : Text) (sortCol : ColumnId) :
    List Row :=
  buildRows host snap rawSearch sortCol .hierarchical ∅

/-- The tree shows every process once under its real parent. -/
structure TreeShown (host : PageHost) (snap : Snapshot) (rawSearch : Text) (sortCol : ColumnId) :
    Prop where
  /-- The walk over the tree ends, and so does every walk that marks a component. -/
  ends : (treeWalk host snap (Query.new host rawSearch) sortCol .hierarchical ∅).2 = []
  marks_end : ∀ covered root,
    (markWalk (childrenMap host snap (Query.new host rawSearch)) covered root).2 = []
  /-- The processes are those of every flat order. -/
  complete : ∀ col order collapsed, order ≠ .hierarchical →
    ((openRows host snap rawSearch sortCol).map Outline.Line.item).Perm
      ((buildRows host snap rawSearch col order collapsed).map Outline.Line.item)
  once : ((openRows host snap rawSearch sortCol).map fun row => row.item.pid).Nodup
  /-- A row is directly under the last row before it that is less deep: its parent's. -/
  nested : ∀ pre row post, openRows host snap rawSearch sortCol = pre ++ row :: post →
    0 < row.depth →
      ∃ up, (pre.filter fun line => line.depth < row.depth).getLast? = some up ∧
        up.depth + 1 = row.depth ∧ ParentOf snap up.item row.item
  /-- A row at depth 0 has no parent, or its component has a cycle. -/
  top : ∀ row ∈ openRows host snap rawSearch sortCol, row.depth = 0 →
    (∃ parent, ParentOf snap parent row.item) →
      ∃ c, Forest.OnCycle (ParentOf snap) c ∧ Relation.EqvGen (ParentOf snap) c row.item
  /-- A component with a cycle has one row at depth 0. -/
  one_each : ∀ row ∈ openRows host snap rawSearch sortCol,
    ∀ row' ∈ openRows host snap rawSearch sortCol, row.depth = 0 → row'.depth = 0 →
      (∃ parent, ParentOf snap parent row.item) → (∃ parent, ParentOf snap parent row'.item) →
        Relation.EqvGen (ParentOf snap) row.item row'.item → row = row'

/-- In every component with a cycle, the stand-in on the cycle was created before every stand-in
that hangs off it. -/
def CyclesCreatedFirst (snap : Snapshot) : Prop :=
  ∀ c t, Forest.StandsIn (ParentOf snap) (realProcesses snap) c →
    Forest.OnCycle (ParentOf snap) c → Forest.StandsIn (ParentOf snap) (realProcesses snap) t →
      ¬ Forest.OnCycle (ParentOf snap) t → Forest.Below (ParentOf snap) c t →
        Processes.creationOrder c t = .lt

/-! ### The walks end -/

theorem treeWalk_ends (order : SortOrder) (collapsed : Finset ℕ) :
    (treeWalk host snap q sortCol order collapsed).2 = [] :=
  Outline.walk_ends budget_siblings (Nat.add_le_add_right (Multimap.unfollowed_le _ ∅) _)

theorem markWalk_ends (children : Multimap ℕ ProcessEntry) (covered : Finset ℕ) (root : ℕ) :
    (markWalk children covered root).2 = [] := by
  have hbudget : Worklist.Budget id (Processes.kidPids children) children.unfollowed :=
    children.budget id _ fun k => by simp [Multimap.next]
  exact Worklist.walk_ends hbudget [root]
    (Nat.add_le_add_right (children.unfollowed_le covered) 1)

/-! ### Every process once -/

section Shown

variable {order : SortOrder} {collapsed : Finset ℕ} (h : Processes.Distinct snap.processes)

include h

theorem item_mem_members :
    ∀ row ∈ treeRows host snap q sortCol order collapsed, row.item ∈ members host snap q := by
  obtain ⟨V, hrun⟩ := run_treeRows host snap q sortCol order collapsed
  intro row hrow
  obtain ⟨x, hx, hreach⟩ := hrun.reaches row hrow
  obtain ⟨r, hr, rfl⟩ := List.mem_map.mp hx
  exact (below_of_reaches (mem_members_of_root h hr) hreach).2

/-- Where all is open, every shown process has a row. -/
theorem exists_row (hopen : ∀ p, isOpen q collapsed p = true) {p : ProcessEntry}
    (hp : p ∈ members host snap q) :
    ∃ row ∈ treeRows host snap q sortCol order collapsed, row.item = p := by
  obtain ⟨V, hrun⟩ := run_treeRows host snap q sortCol order collapsed
  obtain ⟨r, hr, hbelow⟩ := Forest.exists_mem_picks
    (Forest.Below (Attached host snap q)) (fun _ => Relation.ReflTransGen.refl)
    (Processes.unlinked (parentPid host snap q) (members host snap q)) hp
  have hroot : r ∈ sortedRoots host snap q sortCol order :=
    mem_sortedRoots.mpr ((treeRoots_eq h).symm ▸ hr)
  have hseen : p.pid ∈ V :=
    (hrun.reaches_seen (distinct_members h) mem_of_mem_siblings
      (fun _ hr => mem_members_of_root h hr) hp).mpr ⟨r, hroot, reaches_of_below hopen hbelow⟩
  obtain ⟨row, hrow, hpid⟩ := (hrun.mem_seen.mp hseen).resolve_left (Finset.notMem_empty _)
  exact ⟨row, hrow, Multimap.eq_of_key (distinct_members h) (item_mem_members h row hrow) hp hpid⟩

omit h in
theorem nodup_pids :
    ((treeRows host snap q sortCol order collapsed).map fun row => row.item.pid).Nodup := by
  obtain ⟨_, hrun⟩ := run_treeRows host snap q sortCol order collapsed
  exact hrun.nodup

/-- Where all is open, the rows are those of the shown processes, each once. -/
theorem perm_items (hopen : ∀ p, isOpen q collapsed p = true) :
    ((treeRows host snap q sortCol order collapsed).map Outline.Line.item).Perm
      (members host snap q) := by
  have hrows : ((treeRows host snap q sortCol order collapsed).map Outline.Line.item).Nodup := by
    refine List.Nodup.of_map ProcessEntry.pid ?_
    rw [List.map_map]
    exact nodup_pids
  refine (List.perm_ext_iff_of_nodup hrows ((distinct_members h).of_map _)).mpr fun p => ?_
  constructor
  · intro hp
    obtain ⟨row, hrow, rfl⟩ := List.mem_map.mp hp
    exact item_mem_members h row hrow
  · intro hp
    obtain ⟨row, hrow, rfl⟩ := exists_row h hopen hp
    exact List.mem_map_of_mem hrow

/-! ### Under the row of the parent -/

/-- A row is a root's, or directly under the last row before it that is less deep, which is its
parent's. -/
theorem treeRows_placed {pre post : List Row} {row : Row}
    (hsplit : treeRows host snap q sortCol order collapsed = pre ++ row :: post)
    (hdepth : 0 < row.depth) :
    ∃ up, (pre.filter fun line => line.depth < row.depth).getLast? = some up ∧
      up.depth + 1 = row.depth ∧ Attached host snap q up.item row.item := by
  obtain ⟨V, hrun⟩ := run_treeRows host snap q sortCol order collapsed
  have hdesc : Outline.Descending (Outline.start (sortedRoots host snap q sortCol order)) :=
    List.pairwise_map.mpr (List.pairwise_of_forall fun _ _ => le_rfl)
  have hplaced := hrun.placed [] hdesc (fun x hx => by
    obtain ⟨r, hr, rfl⟩ := List.mem_map.mp hx
    exact Or.inl ⟨rfl, hr⟩) pre row post hsplit
  obtain ⟨up, hup, hstep, hlink⟩ := hplaced.resolve_left fun hroot => hdepth.ne' hroot.1
  have hmem : up ∈ treeRows host snap q sortCol order collapsed := by
    rw [hsplit]
    exact List.mem_append_left _ (List.mem_of_mem_filter (List.mem_of_getLast? hup))
  exact ⟨up, hup, hstep, ((link_iff (item_mem_members h up hmem)).mp hlink).2⟩

/-! ### At depth 0 -/

/-- Where all is open, what is at depth 0 is a root that no root above it precedes. -/
theorem depth_zero_iff_atTop (hopen : ∀ p, isOpen q collapsed p = true) {p : ProcessEntry} :
    (∃ row ∈ treeRows host snap q sortCol order collapsed, row.item = p ∧ row.depth = 0) ↔
      Forest.AtTop (Attached host snap q) (sortedRoots host snap q sortCol order) p := by
  rw [depth_zero_iff h]
  constructor
  · rintro ⟨done, rest, hsplit, hnot⟩
    exact ⟨done, rest, hsplit, fun r hr hbelow => hnot r hr (reaches_of_below hopen hbelow)⟩
  · rintro ⟨done, rest, hsplit, hnot⟩
    refine ⟨done, rest, hsplit, fun r hr hreach => hnot r hr ?_⟩
    have hroot : r ∈ sortedRoots host snap q sortCol order :=
      hsplit ▸ List.mem_append_left _ hr
    exact (below_of_reaches (mem_members_of_root h hroot) hreach).1

end Shown

/-! ### The flat orders -/

/-- A flat order lists the matches, each once. -/
theorem flatRows_items (order : SortOrder) :
    ((flatRows host snap q sortCol order).map Outline.Line.item).Perm
      (snap.processes.filter fun p => !p.synthetic && q.matchesProcess host p) := by
  have hitem : (Outline.Line.item ∘ fun p : ProcessEntry => rowFromProcess p 0 false) = id := by
    funext p
    rfl
  rw [flatRows, List.map_map, hitem, List.map_id]
  exact sortBy_perm _ _

theorem flatRows_items_of_isEmpty (hq : q.isEmpty = true) (order : SortOrder) :
    ((flatRows host snap q sortCol order).map Outline.Line.item).Perm (realProcesses snap) := by
  have hreal : (snap.processes.filter fun p => !p.synthetic && q.matchesProcess host p) =
      realProcesses snap := by
    simp [realProcesses, matchesProcess_of_isEmpty hq]
  exact hreal ▸ flatRows_items order

/-! ### One row at the top for each component -/

section Top

variable (h : Processes.Distinct snap.processes)

include h

/-- What stands at the top although it has a parent is in a component with a cycle. -/
theorem cycle_of_atTop {p : ProcessEntry}
    (htop : Forest.AtTop (Attached host snap q) (sortedRoots host snap q sortCol .hierarchical) p)
    (hparent : ∃ y, Attached host snap q y p) :
    ∃ c, Forest.OnCycle (Attached host snap q) c ∧
      Relation.EqvGen (Attached host snap q) c p := by
  have hroot := (mem_treeRoots_iff h).mp (mem_sortedRoots.mp htop.mem)
  obtain ⟨c, hc, hcp⟩ := (hroot.resolve_left fun hbase => hbase.2 hparent).cyclic
  exact ⟨c, hc, hcp.eqvGen (leftUnique_attached h)⟩

variable (host q sortCol) in
/-- **A component has one root at the top exactly when the stand-in on its cycle was created before
those that hang off it.** -/
theorem one_top_iff :
    (∀ a b, Forest.AtTop (Attached host snap q) (sortedRoots host snap q sortCol .hierarchical) a →
      Forest.AtTop (Attached host snap q) (sortedRoots host snap q sortCol .hierarchical) b →
        (∃ y, Attached host snap q y a) → (∃ y, Attached host snap q y b) →
          Relation.EqvGen (Attached host snap q) a b → a = b) ↔
      ∀ c t, Forest.StandsIn (Attached host snap q) (members host snap q) c →
        Forest.OnCycle (Attached host snap q) c →
          Forest.StandsIn (Attached host snap q) (members host snap q) t →
            ¬ Forest.OnCycle (Attached host snap q) t →
              Forest.Below (Attached host snap q) c t → Processes.creationOrder c t = .lt := by
  have hsorted := pairwise_sortedRoots host q h sortCol .hierarchical
  rw [processOrder_hierarchical] at hsorted
  refine Forest.one_per_component_iff (leftUnique_attached h) mem_of_attached (mem_unlinked_iff h)
    (fun p => mem_sortedRoots.trans (iff_of_eq (congrArg (p ∈ ·) (treeRoots_eq h)))) hsorted
    fun a b hab hba => ?_
  have hgt : Processes.creationOrder b a = .gt := Std.OrientedCmp.gt_of_lt hab
  rw [hgt] at hba
  cases hba

end Top

/-- **The tree is right exactly when in every component with a cycle the stand-in on the cycle was
created before those that hang off it.** -/
theorem treeShown_iff (host : PageHost) (snap : Snapshot) (rawSearch : Text) (sortCol : ColumnId)
    (h : Processes.Distinct snap.processes) (hq : (Query.new host rawSearch).isEmpty = true) :
    TreeShown host snap rawSearch sortCol ↔ CyclesCreatedFirst snap := by
  have hattached : Attached host snap (Query.new host rawSearch) = _ := attached_of_isEmpty h hq
  have hmembers : members host snap (Query.new host rawSearch) = _ := members_of_isEmpty hq
  have hone := one_top_iff host (Query.new host rawSearch) sortCol h
  rw [hattached, hmembers] at hone
  -- a row of depth 0 is a root that no root before it leads to
  have htop : ∀ p, (∃ row ∈ openRows host snap rawSearch sortCol, row.item = p ∧ row.depth = 0) ↔
      Forest.AtTop (ParentOf snap)
        (sortedRoots host snap (Query.new host rawSearch) sortCol .hierarchical) p := by
    intro p
    rw [← hattached]
    exact depth_zero_iff_atTop h isOpen_empty
  rw [CyclesCreatedFirst, ← hone]
  constructor
  · intro hshown a b ha hb hpa hpb hab
    obtain ⟨row, hrow, rfl, hdepth⟩ := (htop a).mpr ha
    obtain ⟨row', hrow', rfl, hdepth'⟩ := (htop b).mpr hb
    rw [hshown.one_each row hrow row' hrow' hdepth hdepth' hpa hpb hab]
  · intro hunique
    refine
      { ends := treeWalk_ends _ _
        marks_end := fun covered root => markWalk_ends _ covered root
        complete := fun col order collapsed hflat => ?_
        once := nodup_pids
        nested := fun pre row post hsplit hdepth => ?_
        top := fun row hrow hdepth hparent => ?_
        one_each := fun row hrow row' hrow' hdepth hdepth' hpa hpb hab => ?_ }
    · rw [buildRows_of_flat hflat]
      refine (perm_items h isOpen_empty).trans ?_
      rw [hmembers]
      exact (flatRows_items_of_isEmpty hq order).symm
    · have hplaced := treeRows_placed h hsplit hdepth
      rwa [hattached] at hplaced
    · have hatTop := (htop row.item).mp ⟨row, hrow, rfl, hdepth⟩
      rw [← hattached] at hatTop hparent ⊢
      exact cycle_of_atTop h hatTop hparent
    · have heq : row.item = row'.item := hunique _ _
        ((htop _).mp ⟨row, hrow, rfl, hdepth⟩) ((htop _).mp ⟨row', hrow', rfl, hdepth'⟩) hpa hpb hab
      exact List.inj_on_of_nodup_map nodup_pids hrow hrow'
        (congrArg ProcessEntry.pid heq)

/-- A process with a recorded parent and an unknown creation time. -/
def child (pid parent : ℕ) : ProcessEntry := { pid, ppid := some parent, name := [] }

/-- Two processes under each other, and before them in the snapshot one under the first. -/
def tailFirst : Snapshot := { processes := [child 1 2, child 2 3, child 3 2] }

/-- The process that hangs off the cycle stays at the top beside the stand-in on the cycle. -/
theorem tail_beside_cycle : ¬ TreeShown Processes.asciiHost tailFirst [] .name := by
  intro hshown
  have hrows : openRows Processes.asciiHost tailFirst [] .name =
      [rowFromProcess (child 1 2) 0 false, rowFromProcess (child 2 3) 0 true,
        rowFromProcess (child 3 2) 1 false] := by decide +kernel
  have hlink : ParentOf tailFirst (child 2 3) (child 1 2) := by
    unfold ParentOf
    decide +kernel
  have hlink' : ParentOf tailFirst (child 3 2) (child 2 3) := by
    unfold ParentOf
    decide +kernel
  have heq := hshown.one_each (rowFromProcess (child 2 3) 0 true) (by simp [hrows])
    (rowFromProcess (child 1 2) 0 false) (by simp [hrows]) rfl rfl ⟨_, hlink'⟩ ⟨_, hlink⟩
    (Relation.EqvGen.rel _ _ hlink)
  cases congrArg (fun row : Row => row.item.pid) heq

/-- Two processes under each other, and after them one under the first. -/
def cycleFirst : Snapshot := { processes := [child 1 2, child 2 1, child 3 1] }

/-- What hangs off the cycle is listed under it. -/
theorem treeShown_iff_cycleFirst : TreeShown Processes.asciiHost cycleFirst [] .name := by
  refine (treeShown_iff Processes.asciiHost cycleFirst [] .name (by decide) (by decide)).mpr
    fun c t _ hc ht htail _ => ?_
  have hreal : realProcesses cycleFirst = [child 1 2, child 2 1, child 3 1] := by decide +kernel
  have hdown : ParentOf cycleFirst (child 1 2) (child 2 1) := by
    unfold ParentOf
    decide +kernel
  have hup : ParentOf cycleFirst (child 2 1) (child 1 2) := by
    unfold ParentOf
    decide +kernel
  obtain ⟨y, hy⟩ := ht.parent
  obtain ⟨x, hx⟩ := hc.parent
  have htmem := hy.2.1
  have hcmem := hx.2.1
  rw [hreal] at htmem hcmem
  have hlast : t = child 3 1 := by
    simp only [List.mem_cons, List.not_mem_nil, or_false] at htmem
    rcases htmem with rfl | rfl | rfl
    · exact absurd (Relation.TransGen.tail (.single hdown) hup) htail
    · exact absurd (Relation.TransGen.tail (.single hup) hdown) htail
    · rfl
  subst hlast
  simp only [List.mem_cons, List.not_mem_nil, or_false] at hcmem
  rcases hcmem with rfl | rfl | rfl
  · decide
  · decide
  · exact absurd hc htail

end Details

end Taskman
