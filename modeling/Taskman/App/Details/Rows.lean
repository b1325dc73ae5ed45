import Taskman.App.Details.Columns
import Taskman.Collections.Outline
import Taskman.Collections.StandIns

/-!
# Rows of the Details page

Sorted by a column the page is a flat list.  In the hierarchical order it is an outline: every
process under its recorded parent, if that one is listed and is not known to be younger.  A search
keeps the matches and what is recorded above them.

* `Details.buildRows` : the rows of the page;
* `Details.ParentOf` : the recorded and plausible parent of a process;
* `Details.linked_iff` : **the rows are linked by it**;
* `Details.mem_treeRoots_iff` : **the roots are the processes without a parent, and the stand-ins
  for components that have no such process**;
* `Details.run_treeRows` : **the rows are those of the complete walk over the sorted roots**.
-/

namespace Taskman

namespace Details

open Search

/-- A row: its process, and its place in the tree.  The texts of its cells depend on the process
alone. -/
abbrev Row := Outline.Line ProcessEntry

/-- The row of a process. -/
def rowFromProcess (p : ProcessEntry) (depth : ℕ) (children : Bool) : Row := ⟨p, depth, children⟩

/-- The processes without the pseudo-rows. -/
def realProcesses (snap : Snapshot) : List ProcessEntry :=
  snap.processes.filter fun p => !p.synthetic

/-! ### What a search keeps -/

/-- A pid on the way up, the pids met, and those the way has led to. -/
structure Ascent where
  cursor : ℕ
  seen : Finset ℕ := ∅
  visible : List ℕ := []

/-- Follow the recorded parent, whatever its age, until it is not running or was met. -/
def ascend (all : List ProcessEntry) (s : Ascent) : Option Ascent :=
  if s.cursor ∈ s.seen then none
  else
    match ((Processes.byPid all s.cursor).bind ProcessEntry.ppid).bind (Processes.byPid all) with
    | none => none
    | some parent =>
      some { cursor := parent.pid, seen := insert s.cursor s.seen,
             visible := s.visible ++ [parent.pid] }

/-- The pids recorded above a pid. -/
def ancestors (all : List ProcessEntry) (pid : ℕ) : List ℕ :=
  (While.run (ascend all) all.length { cursor := pid }).visible

/-- **The way up ends.** -/
theorem ascend_ends (all : List ProcessEntry) (pid : ℕ) :
    ascend all (While.run (ascend all) all.length { cursor := pid }) = none := by
  have hranked : While.Ranked (ascend all) (fun _ => True)
      fun s => Processes.unmet all s.seen := by
    refine ⟨fun _ _ _ _ => trivial, fun s s' _ hstep => ?_⟩
    unfold ascend at hstep
    split at hstep
    · cases hstep
    · rename_i hnew
      split at hstep
      · cases hstep
      · rename_i parent hparent
        obtain rfl := Option.some.inj hstep
        obtain ⟨pid, hpid, -⟩ := Option.bind_eq_some_iff.mp hparent
        obtain ⟨p, hp, -⟩ := Option.bind_eq_some_iff.mp hpid
        obtain ⟨hmem, heq⟩ := Processes.mem_of_byPid hp
        rw [← heq] at hnew ⊢
        exact Processes.unmet_insert_lt hmem hnew
  exact (hranked.run_stops (s := { cursor := pid }) trivial (Processes.unmet_le all ∅)).2

/-- The pids the tree shows.  A search adds what is recorded above each match; it only ever adds,
so the order in which the matches are visited does not matter. -/
def visiblePids (host : PageHost) (all : List ProcessEntry) (q : Query) : Finset ℕ :=
  let matched := (all.filter (q.matchesProcess host)).map ProcessEntry.pid
  if q.isEmpty then matched.toFinset
  else (matched ++ matched.flatMap (ancestors all)).toFinset

/-- The processes the tree shows. -/
def members (host : PageHost) (snap : Snapshot) (q : Query) : List ProcessEntry :=
  (realProcesses snap).filter fun p =>
    decide (p.pid ∈ visiblePids host (realProcesses snap) q)

/-! ### Links and roots -/

/-- The pid a process is listed under. -/
def parentPid (host : PageHost) (snap : Snapshot) (q : Query) (p : ProcessEntry) : Option ℕ :=
  p.ppid.filter fun parent =>
    decide (parent ≠ p.pid) && decide (parent ∈ visiblePids host (realProcesses snap) q) &&
      (Processes.byPid (realProcesses snap) parent).any fun parent => isPlausibleParent parent p

/-- What the tree lists under each pid. -/
def childrenMap (host : PageHost) (snap : Snapshot) (q : Query) : Multimap ℕ ProcessEntry :=
  Multimap.ofLinks (parentPid host snap q) (members host snap q)

/-- `mark_tree_component`: add what is listed under a root. -/
def markTreeComponent (children : Multimap ℕ ProcessEntry) (covered : Finset ℕ) (root : ℕ) :
    Finset ℕ :=
  Processes.cover children covered [root]

/-- The unattached processes, and then, in the order of the snapshot, what no root covers yet. -/
def treeRoots (members : List ProcessEntry) (children : Multimap ℕ ProcessEntry) :
    List ProcessEntry :=
  let attached := children.values.map ProcessEntry.pid
  let roots := members.filter fun p => decide (p.pid ∉ attached)
  let covered := roots.foldl (fun covered root => markTreeComponent children covered root.pid) ∅
  (members.foldl (fun s p =>
    if p.pid ∈ s.2 then s else (s.1 ++ [p], markTreeComponent children s.2 p.pid))
    (roots, covered)).1

/-! ### The rows -/

section

variable (host : PageHost) (snap : Snapshot) (q : Query) (sortCol : ColumnId) (order : SortOrder)

/-- The sorted siblings under a process. -/
def siblings (p : ProcessEntry) : List ProcessEntry :=
  sortProcesses host ((childrenMap host snap q).get p.pid) sortCol order

/-- What the tree starts from, in order. -/
def sortedRoots : List ProcessEntry :=
  sortProcesses host (treeRoots (members host snap q) (childrenMap host snap q)) sortCol order

/-- A search opens every row. -/
def isOpen (collapsed : Finset ℕ) (p : ProcessEntry) : Bool :=
  decide (p.pid ∉ collapsed) || !q.isEmpty

/-- Enough turns for the walk over the tree. -/
def treeFuel : ℕ :=
  (childrenMap host snap q).entries.length + (sortedRoots host snap q sortCol order).length

/-- The rows of the tree. -/
def treeRows (collapsed : Finset ℕ) : List Row :=
  Outline.lines ProcessEntry.pid (siblings host snap q sortCol order) (isOpen q collapsed)
    (treeFuel host snap q sortCol order) (sortedRoots host snap q sortCol order)

/-- The rows of every other order. -/
def flatRows : List Row :=
  (sortProcesses host (snap.processes.filter fun p => !p.synthetic && q.matchesProcess host p)
    sortCol order).map fun p => rowFromProcess p 0 false

end

/-- The rows of the page. -/
def buildRows (host : PageHost) (snap : Snapshot) (rawSearch : Text) (sortCol : ColumnId)
    (order : SortOrder) (collapsed : Finset ℕ) : List Row :=
  let q := Query.new host rawSearch
  if order ≠ .hierarchical then flatRows host snap q sortCol order
  else treeRows host snap q sortCol order collapsed

theorem buildRows_of_flat {host : PageHost} {snap : Snapshot} {rawSearch : Text}
    {sortCol : ColumnId} {order : SortOrder} {collapsed : Finset ℕ} (h : order ≠ .hierarchical) :
    buildRows host snap rawSearch sortCol order collapsed =
      flatRows host snap (Query.new host rawSearch) sortCol order :=
  if_pos h

@[simp]
theorem buildRows_hierarchical {host : PageHost} {snap : Snapshot} {rawSearch : Text}
    {sortCol : ColumnId} {collapsed : Finset ℕ} :
    buildRows host snap rawSearch sortCol .hierarchical collapsed =
      treeRows host snap (Query.new host rawSearch) sortCol .hierarchical collapsed := by
  simp [buildRows]

/-! ### The recorded and plausible parent -/

/-- `a` is recorded as the parent of `b`, is running, and is not known to have started later. -/
def ParentOf (snap : Snapshot) (a b : ProcessEntry) : Prop :=
  a ∈ realProcesses snap ∧ b ∈ realProcesses snap ∧ b.ppid = some a.pid ∧ a.pid ≠ b.pid ∧
    isPlausibleParent a b = true

/-- What the tree lists `b` under, directly. -/
abbrev Attached (host : PageHost) (snap : Snapshot) (q : Query) :
    ProcessEntry → ProcessEntry → Prop :=
  Processes.Linked (parentPid host snap q) (members host snap q)

section Links

variable {host : PageHost} {snap : Snapshot} {q : Query}
  (h : Processes.Distinct snap.processes)

include h

theorem distinct_realProcesses : Processes.Distinct (realProcesses snap) :=
  h.sublist (List.filter_sublist.map _)

theorem distinct_members : Processes.Distinct (members host snap q) :=
  (distinct_realProcesses h).sublist (List.filter_sublist.map _)

theorem leftUnique_parentOf : Relator.LeftUnique (ParentOf snap) := by
  rintro a b c ⟨ha, -, hac, -⟩ ⟨hb, -, hbc, -⟩
  exact Multimap.eq_of_key (distinct_realProcesses h) ha hb
    (Option.some.inj (hac.symm.trans hbc))

theorem byPid_realProcesses {p : ProcessEntry} (hp : p ∈ realProcesses snap) :
    Processes.byPid (realProcesses snap) p.pid = some p :=
  Processes.collect_map (distinct_realProcesses h) (fun q => q) hp

/-- **The rows are linked by the recorded and plausible parent.** -/
theorem linked_iff {a b : ProcessEntry} :
    Attached host snap q a b ↔
      ParentOf snap a b ∧ a ∈ members host snap q ∧ b ∈ members host snap q := by
  constructor
  · rintro ⟨ha, hb, hparent⟩
    have ha' := (List.mem_filter.mp ha).1
    obtain ⟨hppid, hcond⟩ := Option.filter_eq_some_iff.mp hparent
    simp only [byPid_realProcesses h ha', Bool.and_eq_true, decide_eq_true_eq,
      Option.any_some] at hcond
    exact ⟨⟨ha', (List.mem_filter.mp hb).1, hppid, hcond.1.1, hcond.2⟩, ha, hb⟩
  · rintro ⟨⟨ha', -, hppid, hne, hplausible⟩, ha, hb⟩
    refine ⟨ha, hb, Option.filter_eq_some_iff.mpr ⟨hppid, ?_⟩⟩
    have hvisible := (List.mem_filter.mp ha).2
    simpa [byPid_realProcesses h ha', hne, hplausible] using hvisible

omit h in
theorem parentPid_mem {p : ProcessEntry} {k : ℕ} (hk : parentPid host snap q p = some k) :
    k ∈ (members host snap q).map ProcessEntry.pid := by
  obtain ⟨-, hcond⟩ := Option.filter_eq_some_iff.mp hk
  simp only [Bool.and_eq_true, decide_eq_true_eq, Option.any_eq_true] at hcond
  obtain ⟨⟨-, hvisible⟩, a, ha, -⟩ := hcond
  obtain ⟨hmem, rfl⟩ := Processes.mem_of_byPid ha
  exact List.mem_map_of_mem (List.mem_filter.mpr ⟨hmem, decide_eq_true hvisible⟩)

/-! ### Roots -/

omit h in
/-- Marking the roots one after another covers what is linked under any of them. -/
theorem foldl_mark {children : Multimap ℕ ProcessEntry} (roots : List ProcessEntry) :
    ∀ (picked : List ProcessEntry) {covered : Finset ℕ},
      Processes.Covered children picked covered →
      Processes.Covered children (picked ++ roots)
        (roots.foldl (fun covered root => markTreeComponent children covered root.pid)
          covered) := by
  induction roots with
  | nil =>
    intro picked covered hcovered
    simpa using hcovered
  | cons root roots ih =>
    intro picked covered hcovered
    rw [List.foldl_cons, List.append_cons]
    exact ih _ (hcovered.pick root)

/-- The roots are a greedy selection from the shown processes. -/
theorem treeRoots_eq :
    treeRoots (members host snap q) (childrenMap host snap q) =
      Forest.roots (Attached host snap q)
        (Processes.unlinked (parentPid host snap q) (members host snap q))
        (members host snap q) := by
  refine Processes.foldl_cover (distinct_members h) _ (fun _ hp => hp) _ _
    (fun p hp => (List.mem_filter.mp hp).1) ?_
  exact foldl_mark _ [] ⟨by simp⟩

omit h in
theorem mem_of_attached (a b : ProcessEntry) (hlink : Attached host snap q a b) :
    a ∈ members host snap q ∧ b ∈ members host snap q :=
  ⟨hlink.1, hlink.2.1⟩

theorem leftUnique_attached : Relator.LeftUnique (Attached host snap q) :=
  Multimap.leftUnique_linked (distinct_members h)

theorem mem_unlinked_iff (p : ProcessEntry) :
    p ∈ Processes.unlinked (parentPid host snap q) (members host snap q) ↔
      p ∈ members host snap q ∧ ¬ ∃ y, Attached host snap q y p :=
  Processes.mem_unlinked_iff (distinct_members h) fun _ _ _ => parentPid_mem

/-- **The roots are the processes without a parent, and the stand-ins for components that have no
such process.** -/
theorem mem_treeRoots_iff {p : ProcessEntry} :
    p ∈ treeRoots (members host snap q) (childrenMap host snap q) ↔
      (p ∈ members host snap q ∧ ¬ ∃ y, Attached host snap q y p) ∨
        Forest.StandsIn (Attached host snap q) (members host snap q) p := by
  rw [treeRoots_eq h, Forest.mem_roots_iff (leftUnique_attached h) mem_of_attached
    (mem_unlinked_iff h), mem_unlinked_iff h]

theorem distinct_treeRoots :
    Processes.Distinct (treeRoots (members host snap q) (childrenMap host snap q)) := by
  have hdistinct := Processes.distinct_treeRoots (parentPid host snap q)
    (distinct_members h) fun _ _ _ => parentPid_mem
  rwa [Processes.treeRoots_eq (distinct_members h), ← treeRoots_eq h] at hdistinct

variable {sortCol : ColumnId} {order : SortOrder}

omit h in
theorem mem_sortedRoots {p : ProcessEntry} :
    p ∈ sortedRoots host snap q sortCol order ↔
      p ∈ treeRoots (members host snap q) (childrenMap host snap q) := by
  rw [sortedRoots, sortProcesses, mem_sortBy]

variable (host q sortCol order) in
/-- Every root comes before the roots after it. -/
theorem pairwise_sortedRoots :
    (sortedRoots host snap q sortCol order).Pairwise fun a b =>
      processOrder host sortCol order a b = .lt := by
  have hpids : Processes.Distinct (sortedRoots host snap q sortCol order) :=
    ((sortBy_perm _ _).map _).nodup_iff.mpr (distinct_treeRoots h)
  refine List.Pairwise.imp₂ (fun a b hne hgt => ?_) (List.pairwise_map.mp hpids)
    (pairwise_sortBy _)
  cases hcmp : processOrder host sortCol order a b with
  | lt => rfl
  | eq => exact absurd (pid_eq_of_processOrder hcmp) hne
  | gt => exact absurd hcmp hgt

end Links

/-! ### The walk -/

section Walk

variable {host : PageHost} {snap : Snapshot} {q : Query} {sortCol : ColumnId} {order : SortOrder}

theorem mem_siblings {a b : ProcessEntry} :
    b ∈ siblings host snap q sortCol order a ↔
      b ∈ members host snap q ∧ parentPid host snap q b = some a.pid := by
  rw [siblings, sortProcesses, mem_sortBy, childrenMap, Multimap.mem_get_ofLinks]

theorem mem_of_mem_siblings (a : ProcessEntry) :
    ∀ b ∈ siblings host snap q sortCol order a, b ∈ members host snap q :=
  fun _ hb => (mem_siblings.mp hb).1

theorem link_iff {collapsed : Finset ℕ} {a b : ProcessEntry} (ha : a ∈ members host snap q) :
    Outline.Link (siblings host snap q sortCol order) (isOpen q collapsed) a b ↔
      isOpen q collapsed a = true ∧ Attached host snap q a b :=
  and_congr_right fun _ => mem_siblings.trans (and_iff_right ha).symm

/-- What the walk reaches from a shown process is attached under it, directly or not. -/
theorem below_of_reaches {collapsed : Finset ℕ} {a b : ProcessEntry}
    (ha : a ∈ members host snap q)
    (h : Outline.Reaches (siblings host snap q sortCol order) (isOpen q collapsed) a b) :
    Forest.Below (Attached host snap q) a b ∧ b ∈ members host snap q := by
  induction h with
  | refl => exact ⟨Relation.ReflTransGen.refl, ha⟩
  | tail _ hlink ih =>
    have hattached := ((link_iff ih.2).mp hlink).2
    exact ⟨ih.1.tail hattached, hattached.2.1⟩

theorem reaches_of_below {collapsed : Finset ℕ} (hopen : ∀ p, isOpen q collapsed p = true)
    {a b : ProcessEntry} (h : Forest.Below (Attached host snap q) a b) :
    Outline.Reaches (siblings host snap q sortCol order) (isOpen q collapsed) a b :=
  Relation.ReflTransGen.mono (fun c _ hlink => (link_iff hlink.1).mpr ⟨hopen c, hlink⟩) a b h

theorem budget_siblings :
    Worklist.Budget ProcessEntry.pid (siblings host snap q sortCol order)
      (childrenMap host snap q).unfollowed := by
  refine Multimap.budget _ _ _ fun p => ?_
  rw [siblings, sortProcesses, length_sortBy]

variable (host snap q sortCol order) in
/-- **The rows are those of the complete walk over the sorted roots.** -/
theorem run_treeRows (collapsed : Finset ℕ) :
    ∃ V, Outline.Run ProcessEntry.pid (siblings host snap q sortCol order) (isOpen q collapsed) ∅
      (Outline.start (sortedRoots host snap q sortCol order))
      (treeRows host snap q sortCol order collapsed) V [] :=
  Outline.run_lines budget_siblings (Nat.add_le_add_right (Multimap.unfollowed_le _ ∅) _)

variable (h : Processes.Distinct snap.processes)

include h

theorem mem_members_of_root {p : ProcessEntry}
    (hp : p ∈ sortedRoots host snap q sortCol order) :
    p ∈ members host snap q := by
  rcases (mem_treeRoots_iff h).mp (mem_sortedRoots.mp hp) with hmem | hstands
  · exact hmem.1
  · exact hstands.first.mem

/-- What is at depth 0 is a root that no earlier root reaches through open rows. -/
theorem depth_zero_iff {collapsed : Finset ℕ} {p : ProcessEntry} :
    (∃ row ∈ treeRows host snap q sortCol order collapsed, row.item = p ∧ row.depth = 0) ↔
      ∃ done rest, sortedRoots host snap q sortCol order = done ++ p :: rest ∧
        ∀ r ∈ done,
          ¬ Outline.Reaches (siblings host snap q sortCol order) (isOpen q collapsed) r p := by
  obtain ⟨_, hrun⟩ := run_treeRows host snap q sortCol order collapsed
  exact Outline.top_iff (distinct_members h) mem_of_mem_siblings
    (fun _ hr => mem_members_of_root h hr) hrun

end Walk

end Details

end Taskman
