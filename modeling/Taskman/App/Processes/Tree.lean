import Taskman.App.Processes.Blocks
import Taskman.App.Processes.Grouping
import Taskman.Collections.Forest

/-!
# App trees of the Processes page

The Apps section shows one block for each root: the process itself when nothing is linked under it,
otherwise a group of everything linked under it, directly or not.  The links are the recorded parent
pids within the section, except that an app root is detached from its parent.

* `Processes.displayChildrenMap`, `Processes.treeRoots` : the links, and the roots over them;
* `Processes.subtreeRollups`, `Processes.rollup_ends` : the state a group's head sums up;
* `Processes.emitTree` : the rows of the section;
* `Processes.treeRoots_eq` : **the roots are a greedy selection by what is linked under them**;
* `Processes.mem_treeGroupMembers` : **a root stands for what is linked under it**;
* `Processes.treeBlock_valid`, `Processes.emitTree_eq` : **the section is one valid block for each
  root, in the sorted order of the roots**.
-/

namespace Taskman

namespace Processes

/-! ### Links -/

/-- The pid a process is linked under: its parent in the same section, unless it is an app root. -/
def displayParent (pids : List ℕ) (groups : DisplayGroups) (p : ProcessEntry) : Option ℕ :=
  let childCat := (groups.category p.pid).getD p.category
  if childCat = .app ∧ p.pid ∈ groups.appRoots then none
  else
    p.ppid.filter fun ppid =>
      decide (ppid ≠ p.pid) && decide (ppid ∈ pids) &&
        decide (groups.category ppid = some childCat)

/-- The links within a list of processes. -/
def displayChildrenMap (list : List ProcessEntry) (groups : DisplayGroups) :
    Multimap ℕ ProcessEntry :=
  Multimap.ofLinks (displayParent (list.map ProcessEntry.pid) groups) list

/-- The pids linked under a pid. -/
abbrev kidPids (children : Multimap ℕ ProcessEntry) : ℕ → List ℕ := children.next ProcessEntry.pid

/-- The pids known to be covered, and those a walk from `seeds` adds to them. -/
def cover (children : Multimap ℕ ProcessEntry) (covered : Finset ℕ) (seeds : List ℕ) : Finset ℕ :=
  (Worklist.walk id (kidPids children) (children.entries.length + seeds.length) covered seeds).1

/-- The processes linked under nobody, and then, in order, what no root covers yet. -/
def treeRoots (members : List ProcessEntry) (children : Multimap ℕ ProcessEntry) :
    List ProcessEntry :=
  let linked := children.values.map ProcessEntry.pid
  let roots := members.filter fun p => decide (p.pid ∉ linked)
  let covered := cover children ∅ (roots.map ProcessEntry.pid)
  (members.foldl (fun s p =>
    if p.pid ∈ s.2 then s else (s.1 ++ [p], cover children s.2 [p.pid])) (roots, covered)).1

/-- A process and everything linked under it. -/
def treeGroupMembers (root : ProcessEntry) (children : Multimap ℕ ProcessEntry) :
    List ProcessEntry :=
  (Worklist.walk ProcessEntry.pid (fun p => children.get p.pid) (children.entries.length + 1) ∅
    [root]).2

/-! ### Rolled-up state -/

/-- What the head of a group sums up over everything linked under it. -/
structure Subtree where
  efficiency : ℕ → Option Bool
  status : ℕ → Option ProcStatus

/-- Something in the subtree of a pid is in efficiency mode. -/
def Subtree.efficiencyOf (s : Subtree) (pid : ℕ) : Bool := (s.efficiency pid).getD false

/-- The status of the subtree of a pid. -/
def Subtree.statusOf (s : Subtree) (pid : ℕ) : ProcStatus := (s.status pid).getD .running

/-- A process to enter, or one whose children were visited. -/
inductive Frame where
  | enter (pid : ℕ)
  | combine (pid : ℕ) (kids : List ProcessEntry) (throttled : Bool) (status : ProcStatus)

/-- The tables of the walk that summarises the subtrees. -/
structure Rollup where
  eco : ℕ → Option Bool := fun _ => none
  statuses : ℕ → Option ProcStatus := fun _ => none
  done : Finset ℕ := ∅
  inProgress : Finset ℕ := ∅

/-- A process's own state together with that of its finished children. -/
def combineKids (s : Rollup) (kids : List ProcessEntry) (throttled : Bool) (status : ProcStatus) :
    Bool × ProcStatus :=
  kids.foldl (fun acc k =>
    if k.pid ∈ s.done then
      (acc.1 || (s.eco k.pid).getD false,
        match s.statuses k.pid with
        | some .notResponding => .notResponding
        | some .suspended => if acc.2 ≠ .notResponding then .suspended else acc.2
        | _ => acc.2)
    else acc) (throttled, status)

/-- One turn of that walk. -/
def rollupVisit (all : List ProcessEntry) (children : Multimap ℕ ProcessEntry) (s : Rollup) :
    Frame → Rollup × List Frame
  | .combine pid kids throttled status =>
    let state := combineKids s kids throttled status
    ({ eco := Function.update s.eco pid (some state.1)
       statuses := Function.update s.statuses pid (some state.2)
       done := insert pid s.done
       inProgress := s.inProgress.erase pid }, [])
  | .enter pid =>
    if pid ∈ s.done ∨ pid ∈ s.inProgress then (s, [])
    else
      match byPid all pid with
      | none => (s, [])
      | some p =>
        let inProgress := insert pid s.inProgress
        let kids := children.get pid
        let pending := kids.filter fun k =>
          decide (k.pid ∉ s.done) && decide (k.pid ∉ inProgress) && (byPid all k.pid).isSome
        if kids.isEmpty then
          ({ eco := Function.update s.eco pid (some (p.powerThrottled == some true))
             statuses := Function.update s.statuses pid (some p.status)
             done := insert pid s.done
             inProgress := inProgress.erase pid }, [])
        else
          ({ s with inProgress := inProgress },
            .combine pid kids (p.powerThrottled == some true) p.status ::
              pending.map fun k => .enter k.pid)

/-- Enough turns for one walk. -/
def rollupFuel (all : List ProcessEntry) (children : Multimap ℕ ProcessEntry) : ℕ :=
  all.length + children.entries.length + 1

/-- What is known of the subtree of each process. -/
def subtreeRollups (all : List ProcessEntry) (children : Multimap ℕ ProcessEntry) : Subtree :=
  let s := all.foldl (fun s root =>
    if root.pid ∈ s.done then s
    else Worklist.drain (rollupVisit all children) (rollupFuel all children) s [.enter root.pid]) {}
  { efficiency := all.foldl (fun eco p =>
      if (eco p.pid).isSome then eco
      else Function.update eco p.pid (some (p.powerThrottled == some true))) s.eco
    status := all.foldl (fun statuses p =>
      if (statuses p.pid).isSome then statuses
      else Function.update statuses p.pid (some p.status)) s.statuses }

/-- The walk that rolls up what is linked under a process ends. -/
theorem rollup_ends (all : List ProcessEntry) (children : Multimap ℕ ProcessEntry) (s : Rollup)
    (pid : ℕ) :
    (While.run (Worklist.pop (rollupVisit all children)) (rollupFuel all children)
      (s, [.enter pid])).2 = [] := by
  refine Worklist.drain_ends (fun _ _ => True)
    (fun s stack => unmet all (s.done ∪ s.inProgress) +
      children.unfollowed (s.done ∪ s.inProgress) + stack.length)
    (fun _ _ _ _ => trivial) ?_ trivial ?_
  · intro s frame stack _
    -- whoever is met stays met, so that every frame lowers the measure
    have hmono : ∀ {seen seen' : Finset ℕ}, seen ⊆ seen' → unmet all seen' ≤ unmet all seen := by
      intro seen seen' hsub
      refine List.countP_mono_left fun p _ hp => ?_
      have hnot : p.pid ∉ seen' := of_decide_eq_true hp
      exact decide_eq_true fun hmem => hnot (hsub hmem)
    cases frame with
    | combine pid kids throttled status =>
      have hsub : s.done ∪ s.inProgress ⊆ insert pid s.done ∪ s.inProgress.erase pid := by
        intro k hk
        by_cases hkp : k = pid
        · simp [hkp]
        · simpa [hkp] using hk
      have hunmet := hmono hsub
      have hunfollowed := children.unfollowed_anti hsub
      simp only [rollupVisit, List.reverse_nil, List.nil_append, List.length_cons]
      omega
    | enter pid =>
      by_cases hseen : pid ∈ s.done ∨ pid ∈ s.inProgress
      · simp [rollupVisit, hseen]
      · have hnew : pid ∉ s.done ∪ s.inProgress := by simpa using hseen
        simp only [rollupVisit, hseen, if_false]
        cases hp : byPid all pid with
        | none => simp
        | some p =>
          obtain ⟨hmem, rfl⟩ := mem_of_byPid hp
          have hunmet := unmet_insert_lt hmem hnew
          have hunfollowed := children.unfollowed_insert hnew
          by_cases hkids : (children.get p.pid).isEmpty
          · have hset : insert p.pid s.done ∪ (insert p.pid s.inProgress).erase p.pid =
                insert p.pid (s.done ∪ s.inProgress) := by
              ext k
              by_cases hkp : k = p.pid <;> simp [hkp]
            simp only [hkids, if_true, hset, List.reverse_nil, List.nil_append, List.length_cons]
            omega
          · have hset : s.done ∪ insert p.pid s.inProgress =
                insert p.pid (s.done ∪ s.inProgress) := Finset.union_insert _ _ _
            have hpending := List.length_filter_le (fun k : ProcessEntry =>
              decide (k.pid ∉ s.done) && decide (k.pid ∉ insert p.pid s.inProgress) &&
                (byPid all k.pid).isSome) (children.get p.pid)
            simp only [hkids, hset, Bool.false_eq_true, if_false, List.length_append,
              List.length_reverse, List.length_cons, List.length_map]
            omega
  · have hunmet := unmet_le all (s.done ∪ s.inProgress)
    have hunfollowed := children.unfollowed_le (s.done ∪ s.inProgress)
    simp only [rollupFuel, List.length_singleton]
    omega

/-! ### Rows of the section -/

/-- The summary row of a group. -/
def treeHead (host : PageHost) (subtree : Subtree) (root : ProcessEntry)
    (members : List ProcessEntry) (values : Values) : RowData where
  pid := root.pid
  startEpochS := root.startEpochS
  depth := 0
  name := countLabel (processDisplayName host root) members
  iconPath := root.exePath
  children := true
  aggregate := true
  terminationTargets := groupTargets members
  values := values
  heat _ := 0
  netAvailable := members.any netKnown
  diskAvailable := members.any diskKnown
  gpuAvailable := members.any gpuKnown
  status := subtree.statusOf root.pid
  powerThrottled := subtree.efficiencyOf root.pid
  synthetic := false
  commandLine := none
  tooltip := none

/-- The members of an expanded group with their depths: depth first, each level sorted. -/
def expandedTreeListing (host : PageHost) (root : ProcessEntry)
    (children : Multimap ℕ ProcessEntry) (members : List ProcessEntry) (sortCol : ℕ)
    (ascending : Bool) : List (ProcessEntry × ℕ) :=
  (Worklist.walk (fun x => x.1.pid) (fun x =>
    ((sortEntries host ((children.get x.1.pid).filter fun child =>
      decide (child.pid ∈ members.map ProcessEntry.pid)) sortCol ascending
        (ownTable members)).reverse).map fun child => (child, x.2 + 1))
    (children.entries.length + 1) ∅ [(root, 1)]).2

/-- `emit_expanded_tree_members`. -/
def expandedTreeMembers (host : PageHost) (root : ProcessEntry)
    (children : Multimap ℕ ProcessEntry) (members : List ProcessEntry) (sortCol : ℕ)
    (ascending : Bool) : List RowData :=
  memberRows host (expandedTreeListing host root children members sortCol ascending)

/-- The values a root's row shows. -/
def treeValues (hash : PageHash) (root : ProcessEntry) (members : List ProcessEntry) : Values :=
  if members.length ≤ 1 then ownValues root else familyValues hash members

/-- The rows of one root. -/
def emitTreeGroup (host : PageHost) (children : Multimap ℕ ProcessEntry) (subtree : Subtree)
    (sortCol : ℕ) (ascending : Bool) (expanded : Finset ℕ) (root : ProcessEntry)
    (members : List ProcessEntry) (values : Values) : List DisplayRow :=
  if members.length ≤ 1 then [.process (makeOwnRow host root 0)]
  else
    .process (treeHead host subtree root members values) ::
      if root.pid ∈ expanded then
        (expandedTreeMembers host root children members sortCol ascending).map .process
      else []

/-- The members of each root's group, and what its row shows. -/
structure TreeTables where
  groups : ℕ → Option (List ProcessEntry)
  shown : ℕ → Option Values

/-- The members of each root, and the values they add up to. -/
def treeTables (hash : PageHash) (roots : List ProcessEntry) (children : Multimap ℕ ProcessEntry) :
    TreeTables where
  groups := collect (roots.map fun root => (root.pid, treeGroupMembers root children))
  shown := collect (roots.map fun root =>
    (root.pid, treeValues hash root (treeGroupMembers root children)))

/-- One root's turn: its group is taken out of the table and shown. -/
def emitRoot (host : PageHost) (children : Multimap ℕ ProcessEntry) (subtree : Subtree)
    (sortCol : ℕ) (ascending : Bool) (expanded : Finset ℕ) (tables : TreeTables)
    (s : Finset ℕ × List DisplayRow) (root : ProcessEntry) : Finset ℕ × List DisplayRow :=
  if root.pid ∈ s.1 then s
  else
    match tables.groups root.pid with
    | none => s
    | some members =>
      (insert root.pid s.1,
        s.2 ++ emitTreeGroup host children subtree sortCol ascending expanded root members
          ((tables.shown root.pid).getD fun _ => 0))

/-- The rows of the roots, sorted by what they show. -/
def emitTree (host : PageHost) (hash : PageHash) (roots : List ProcessEntry)
    (children : Multimap ℕ ProcessEntry) (subtree : Subtree) (sortCol : ℕ) (ascending : Bool)
    (expanded : Finset ℕ) : List DisplayRow :=
  let tables := treeTables hash roots children
  ((sortEntries host roots sortCol ascending tables.shown).foldl
    (emitRoot host children subtree sortCol ascending expanded tables) (∅, [])).2

/-! ### What is linked under a process -/

/-- The pids tell the processes apart. -/
abbrev Distinct (l : List ProcessEntry) : Prop := (l.map ProcessEntry.pid).Nodup

section Links

variable {parent : ProcessEntry → Option ℕ} {l : List ProcessEntry}

/-- One process is linked under another. -/
abbrev Linked (parent : ProcessEntry → Option ℕ) (l : List ProcessEntry) :
    ProcessEntry → ProcessEntry → Prop := Multimap.Linked ProcessEntry.pid parent l

theorem treeGroupMembers_spec (root : ProcessEntry) (children : Multimap ℕ ProcessEntry) :
    ((treeGroupMembers root children).map ProcessEntry.pid).Nodup ∧
      ∀ k, k ∈ (treeGroupMembers root children).map ProcessEntry.pid ↔
        Worklist.Reach (kidPids children) root.pid k := by
  have hfuel : children.unfollowed ∅ + [root].length ≤ children.entries.length + 1 :=
    Nat.add_le_add_right (children.unfollowed_le ∅) 1
  obtain ⟨hkeys, hnodup, hvisited⟩ := Worklist.walk_spec (kidPids children) ∅
    (children.budget ProcessEntry.pid (fun p => children.get p.pid) fun _ => le_refl _)
    (fun _ _ => Iff.rfl) (by simp) hfuel
  refine ⟨hnodup, fun k => ?_⟩
  rw [treeGroupMembers, hvisited, hkeys]
  simp

/-- **A root stands for what is linked under it, directly or not.** -/
theorem mem_treeGroupMembers (hl : Distinct l) {root x : ProcessEntry} (hroot : root ∈ l) :
    x ∈ treeGroupMembers root (Multimap.ofLinks parent l) ↔
      x ∈ l ∧ Relation.ReflTransGen (Linked parent l) root x := by
  have hfuel : (Multimap.ofLinks parent l).unfollowed ∅ + [root].length ≤
      (Multimap.ofLinks parent l).entries.length + 1 :=
    Nat.add_le_add_right (Multimap.unfollowed_le _ ∅) 1
  have hmem := Worklist.mem_walk_iff (kidPids (Multimap.ofLinks parent l)) (fun p => p ∈ l) (a := x)
    ((Multimap.ofLinks parent l).budget ProcessEntry.pid
      (fun p => (Multimap.ofLinks parent l).get p.pid) fun _ => le_refl _)
    (fun _ _ => Iff.rfl) (fun _ _ ha hb h => Multimap.eq_of_key hl ha hb h)
    (by simpa using hroot) (fun _ _ b hb => (Multimap.mem_get_ofLinks.mp hb).1) hfuel
  rw [treeGroupMembers, hmem]
  simp only [List.mem_singleton, exists_eq_left]
  constructor
  · rintro ⟨hx, hreach⟩
    exact ⟨hx, (Multimap.reach_next_iff hl hroot hx).mp hreach⟩
  · rintro ⟨hx, hreach⟩
    exact ⟨hx, (Multimap.reach_next_iff hl hroot hx).mpr hreach⟩

theorem nodup_treeGroupMembers (root : ProcessEntry) (children : Multimap ℕ ProcessEntry) :
    (treeGroupMembers root children).Nodup :=
  (treeGroupMembers_spec root children).1.of_map _

variable (parent) in
theorem root_mem_treeGroupMembers (hl : Distinct l) {root : ProcessEntry} (hroot : root ∈ l) :
    root ∈ treeGroupMembers root (Multimap.ofLinks parent l) :=
  (mem_treeGroupMembers hl hroot).mpr ⟨hroot, Relation.ReflTransGen.refl⟩

variable (parent) in
/-- The rows of an expanded group are those of its members, all nested under the head. -/
theorem expandedTreeListing_spec (host : PageHost) (hl : Distinct l) {root : ProcessEntry}
    (hroot : root ∈ l) (sortCol : ℕ) (ascending : Bool) :
    ((expandedTreeListing host root (Multimap.ofLinks parent l)
        (treeGroupMembers root (Multimap.ofLinks parent l)) sortCol ascending).map Prod.fst).Perm
      (treeGroupMembers root (Multimap.ofLinks parent l)) ∧
    ∀ x ∈ expandedTreeListing host root (Multimap.ofLinks parent l)
        (treeGroupMembers root (Multimap.ofLinks parent l)) sortCol ascending, 1 ≤ x.2 := by
  set children := Multimap.ofLinks parent l with hchildren
  set members := treeGroupMembers root children with hmembers
  obtain ⟨-, hpids⟩ := treeGroupMembers_spec root children
  let next : ℕ → List ℕ := fun k => ((children.get k).filter fun child =>
    decide (child.pid ∈ members.map ProcessEntry.pid)).map ProcessEntry.pid
  let kids : ProcessEntry × ℕ → List (ProcessEntry × ℕ) := fun x =>
    ((sortEntries host ((children.get x.1.pid).filter fun child =>
      decide (child.pid ∈ members.map ProcessEntry.pid)) sortCol ascending
        (ownTable members)).reverse).map fun child => (child, x.2 + 1)
  have hbudget :
      Worklist.Budget (fun x : ProcessEntry × ℕ => x.1.pid) kids children.unfollowed := by
    refine children.budget _ _ fun x => ?_
    simp only [kids, List.length_map, List.length_reverse, sortEntries, length_sortBy]
    exact List.length_filter_le _ _
  have hnext : ∀ x j, j ∈ (kids x).map (fun x => x.1.pid) ↔ j ∈ next x.1.pid := by
    intro x j
    simp only [kids, next, List.map_map, List.mem_map, List.mem_reverse, sortEntries, mem_sortBy,
      Function.comp]
  have hfuel : children.unfollowed ∅ + [(root, 1)].length ≤ children.entries.length + 1 :=
    Nat.add_le_add_right (children.unfollowed_le ∅) 1
  obtain ⟨hkeys, hnodup, hvisited⟩ :=
    Worklist.walk_spec next ∅ hbudget hnext (by simp) hfuel
  have hwithin := Worklist.walk_forall (fun x => x.1 ∈ l ∧ 1 ≤ x.2) ∅ hbudget
    (by simpa using hroot) (fun x hx y hy => by
      obtain ⟨child, hchild, rfl⟩ := List.mem_map.mp hy
      rw [List.mem_reverse, sortEntries, mem_sortBy] at hchild
      exact ⟨(Multimap.mem_get_ofLinks.mp (List.mem_filter.mp hchild).1).1, by omega⟩) hfuel
  -- leaving out what is not a member leaves out nothing that is reached
  have hreach : ∀ k,
      Worklist.Reach next root.pid k ↔ Worklist.Reach (kidPids children) root.pid k := by
    intro k
    constructor
    · intro h
      refine Relation.ReflTransGen.mono (fun a b hb => ?_) root.pid k h
      obtain ⟨child, hchild, rfl⟩ := List.mem_map.mp hb
      exact List.mem_map_of_mem (List.mem_filter.mp hchild).1
    · intro h
      induction h with
      | refl => exact Relation.ReflTransGen.refl
      | @tail j k hj hstep ih =>
        refine ih.tail ?_
        obtain ⟨child, hchild, rfl⟩ := List.mem_map.mp hstep
        refine List.mem_map_of_mem (List.mem_filter.mpr ⟨hchild, decide_eq_true ?_⟩)
        exact (hpids _).mpr (hj.tail hstep)
  refine ⟨?_, fun x hx => (hwithin x hx).2⟩
  have hmapnodup : ((expandedTreeListing host root children members sortCol ascending).map
      Prod.fst).Nodup := by
    refine List.Nodup.of_map ProcessEntry.pid ?_
    rw [List.map_map]
    exact hnodup
  refine (List.perm_ext_iff_of_nodup hmapnodup (nodup_treeGroupMembers root children)).mpr ?_
  intro x
  have hkey : ∀ k, k ∈ (expandedTreeListing host root children members sortCol ascending).map
      (fun x => x.1.pid) ↔ Worklist.Reach (kidPids children) root.pid k := by
    intro k
    rw [← hreach k, expandedTreeListing, hvisited, hkeys]
    simp
  rw [mem_treeGroupMembers hl hroot]
  constructor
  · intro hx
    obtain ⟨y, hy, rfl⟩ := List.mem_map.mp hx
    have hyl : y.1 ∈ l := (hwithin y hy).1
    exact ⟨hyl, (Multimap.reach_next_iff hl hroot hyl).mp
      ((hkey _).mp (List.mem_map_of_mem (f := fun x : ProcessEntry × ℕ => x.1.pid) hy))⟩
  · rintro ⟨hxl, hx⟩
    obtain ⟨y, hy, hpid⟩ := List.mem_map.mp
      ((hkey x.pid).mpr ((Multimap.reach_next_iff hl hroot hxl).mpr hx))
    rw [← Multimap.eq_of_key hl (hwithin y hy).1 hxl hpid]
    exact List.mem_map_of_mem hy

/-! ### Roots -/

theorem mem_cover {children : Multimap ℕ ProcessEntry} {covered : Finset ℕ}
    (hclosed : ∀ k ∈ covered, ∀ j ∈ kidPids children k, j ∈ covered) {seeds : List ℕ} {k : ℕ} :
    k ∈ cover children covered seeds ↔
      k ∈ covered ∨ ∃ seed ∈ seeds, Worklist.Reach (kidPids children) seed k := by
  have hfuel : children.unfollowed covered + seeds.length ≤
      children.entries.length + seeds.length :=
    Nat.add_le_add_right (children.unfollowed_le covered) _
  have hbudget : Worklist.Budget id (kidPids children) children.unfollowed :=
    children.budget id _ fun k => by simp [Multimap.next]
  exact (Worklist.walk_spec _ _ hbudget (fun _ _ => by simp) hclosed hfuel).1 k

/-- The pids covered are those linked under the roots picked so far. -/
structure Covered (children : Multimap ℕ ProcessEntry) (picked : List ProcessEntry)
    (covered : Finset ℕ) : Prop where
  mem : ∀ k, k ∈ covered ↔ ∃ q ∈ picked, Worklist.Reach (kidPids children) q.pid k

theorem Covered.closed {children : Multimap ℕ ProcessEntry} {picked : List ProcessEntry}
    {covered : Finset ℕ} (h : Covered children picked covered) :
    ∀ k ∈ covered, ∀ j ∈ kidPids children k, j ∈ covered := by
  intro k hk j hj
  obtain ⟨q, hq, hreach⟩ := (h.mem k).mp hk
  exact (h.mem j).mpr ⟨q, hq, hreach.tail hj⟩

/-- Picking a root covers what is linked under it. -/
theorem Covered.pick {children : Multimap ℕ ProcessEntry} {picked : List ProcessEntry}
    {covered : Finset ℕ} (h : Covered children picked covered) (p : ProcessEntry) :
    Covered children (picked ++ [p]) (cover children covered [p.pid]) := by
  refine ⟨fun k => ?_⟩
  rw [mem_cover h.closed, h.mem]
  constructor
  · rintro (⟨q, hq, hreach⟩ | ⟨seed, hseed, hreach⟩)
    · exact ⟨q, List.mem_append_left _ hq, hreach⟩
    · rw [List.mem_singleton.mp hseed] at hreach
      exact ⟨p, List.mem_append_right _ (List.mem_singleton_self p), hreach⟩
  · rintro ⟨q, hq, hreach⟩
    rcases List.mem_append.mp hq with hq | hq
    · exact Or.inl ⟨q, hq, hreach⟩
    · rw [List.mem_singleton.mp hq] at hreach
      exact Or.inr ⟨p.pid, List.mem_singleton_self _, hreach⟩

/-- The second pass picks, in order, what nothing picked covers. -/
theorem foldl_cover (hl : Distinct l) (rest : List ProcessEntry) (hrest : ∀ p ∈ rest, p ∈ l) :
    ∀ (picked : List ProcessEntry) (covered : Finset ℕ), (∀ q ∈ picked, q ∈ l) →
      Covered (Multimap.ofLinks parent l) picked covered →
      (rest.foldl (fun s p =>
        if p.pid ∈ s.2 then s
        else (s.1 ++ [p], cover (Multimap.ofLinks parent l) s.2 [p.pid])) (picked, covered)).1 =
        Forest.picks (Forest.Below (Linked parent l)) picked rest := by
  induction rest with
  | nil =>
    intro picked covered _ _
    rfl
  | cons p rest ih =>
    intro picked covered hpicked hcovered
    have hp : p ∈ l := hrest p List.mem_cons_self
    have hiff : p.pid ∈ covered ↔ ∃ q ∈ picked, Forest.Below (Linked parent l) q p := by
      rw [hcovered.mem]
      constructor
      · rintro ⟨q, hq, hreach⟩
        exact ⟨q, hq, (Multimap.reach_next_iff hl (hpicked q hq) hp).mp hreach⟩
      · rintro ⟨q, hq, hbelow⟩
        exact ⟨q, hq, (Multimap.reach_next_iff hl (hpicked q hq) hp).mpr hbelow⟩
    have ih' := ih fun q hq => hrest q (List.mem_cons_of_mem _ hq)
    rw [List.foldl_cons]
    by_cases hmem : p.pid ∈ covered
    · rw [if_pos hmem, Forest.picks_cons_of_covered (hiff.mp hmem)]
      exact ih' picked covered hpicked hcovered
    · rw [if_neg hmem, Forest.picks_cons_of_not fun h => hmem (hiff.mpr h)]
      refine ih' (picked ++ [p]) _ ?_ (hcovered.pick p)
      intro q hq
      rcases List.mem_append.mp hq with hq | hq
      · exact hpicked q hq
      · exact List.mem_singleton.mp hq ▸ hp

/-- The processes linked under nobody. -/
def unlinked (parent : ProcessEntry → Option ℕ) (l : List ProcessEntry) : List ProcessEntry :=
  l.filter fun p => decide (p.pid ∉ (Multimap.ofLinks parent l).values.map ProcessEntry.pid)

theorem mem_unlinked_iff (hl : Distinct l)
    (hparent : ∀ p ∈ l, ∀ k, parent p = some k → k ∈ l.map ProcessEntry.pid) {x : ProcessEntry} :
    x ∈ unlinked parent l ↔ x ∈ l ∧ ¬ ∃ y, Linked parent l y x := by
  rw [unlinked, List.mem_filter, decide_eq_true_iff]
  refine and_congr_right fun hx => not_congr ?_
  constructor
  · intro hmem
    obtain ⟨y, hy, hpid⟩ := List.mem_map.mp hmem
    obtain ⟨hyl, hsome⟩ := Multimap.mem_values_ofLinks.mp hy
    obtain rfl : y = x := Multimap.eq_of_key hl hyl hx hpid
    obtain ⟨k, hk⟩ := Option.isSome_iff_exists.mp hsome
    obtain ⟨z, hz, rfl⟩ := List.mem_map.mp (hparent y hyl k hk)
    exact ⟨z, hz, hyl, hk⟩
  · rintro ⟨y, hy⟩
    refine List.mem_map_of_mem (Multimap.mem_values_ofLinks.mpr ⟨hx, ?_⟩)
    rw [hy.2.2, Option.isSome_some]

/-- **The roots are what is linked under nobody, and then, in order, what no root covers.** -/
theorem treeRoots_eq (hl : Distinct l) :
    treeRoots l (Multimap.ofLinks parent l) =
      Forest.roots (Linked parent l) (unlinked parent l) l := by
  refine foldl_cover hl l (fun _ hp => hp) _ _ (fun q hq => (List.mem_filter.mp hq).1) ⟨fun k => ?_⟩
  rw [mem_cover (by simp)]
  simp

theorem mem_of_mem_treeRoots (hl : Distinct l) {root : ProcessEntry}
    (h : root ∈ treeRoots l (Multimap.ofLinks parent l)) : root ∈ l := by
  rw [treeRoots_eq hl] at h
  rcases Forest.mem_or_mem_of_mem_picks h with hmem | hmem
  · exact (List.mem_filter.mp hmem).1
  · exact hmem

theorem nodup_unlinked (hl : Distinct l) : (unlinked parent l).Nodup := (hl.of_map _).filter _

variable (parent) in
/-- The roots have distinct pids. -/
theorem distinct_treeRoots (hl : Distinct l)
    (hparent : ∀ p ∈ l, ∀ k, parent p = some k → k ∈ l.map ProcessEntry.pid) :
    Distinct (treeRoots l (Multimap.ofLinks parent l)) := by
  have hpairwise : (Forest.roots (Linked parent l) (unlinked parent l) l).Pairwise fun q p =>
      ¬ Forest.Below (Linked parent l) q p :=
    Forest.pairwise_picks
      (Forest.pairwise_base (fun _ => mem_unlinked_iff hl hparent) (nodup_unlinked hl))
  rw [← treeRoots_eq hl] at hpairwise
  refine List.Nodup.map_on ?_ (hpairwise.imp fun {q p} hqp heq => hqp ?_)
  · intro q hq p hp hpid
    exact Multimap.eq_of_key hl (mem_of_mem_treeRoots hl hq) (mem_of_mem_treeRoots hl hp) hpid
  · rw [heq]

end Links

/-- A link goes to a process of the list. -/
theorem mem_of_displayParent {list : List ProcessEntry} {groups : DisplayGroups} {p : ProcessEntry}
    {k : ℕ} (h : displayParent (list.map ProcessEntry.pid) groups p = some k) :
    k ∈ list.map ProcessEntry.pid := by
  dsimp only [displayParent] at h
  split at h
  · cases h
  · have hcond := (Option.filter_eq_some_iff.mp h).2
    simp only [Bool.and_eq_true, decide_eq_true_eq] at hcond
    exact hcond.1.2

/-! ### The section as blocks -/

/-- The block of one root. -/
def treeBlock (host : PageHost) (hash : PageHash) (children : Multimap ℕ ProcessEntry)
    (subtree : Subtree) (sortCol : ℕ) (ascending : Bool) (root : ProcessEntry) : Block :=
  let members := treeGroupMembers root children
  if members.length ≤ 1 then ⟨root, [root], makeOwnRow host root 0, []⟩
  else
    ⟨root, members, treeHead host subtree root members (familyValues hash members),
      expandedTreeMembers host root children members sortCol ascending⟩

theorem rows_treeBlock (host : PageHost) (hash : PageHash) (children : Multimap ℕ ProcessEntry)
    (subtree : Subtree) (sortCol : ℕ) (ascending : Bool) (expanded : Finset ℕ)
    (root : ProcessEntry) :
    (treeBlock host hash children subtree sortCol ascending root).rows expanded =
      emitTreeGroup host children subtree sortCol ascending expanded root
        (treeGroupMembers root children)
        (treeValues hash root (treeGroupMembers root children)) := by
  unfold treeBlock emitTreeGroup treeValues
  by_cases hlen : (treeGroupMembers root children).length ≤ 1
  · simp [hlen, Block.rows, makeOwnRow]
  · simp [hlen, Block.rows, treeHead]

theorem members_treeBlock {parent : ProcessEntry → Option ℕ} {l : List ProcessEntry}
    (host : PageHost) (hash : PageHash) (subtree : Subtree) (sortCol : ℕ) (ascending : Bool)
    (hl : Distinct l) {root : ProcessEntry} (hroot : root ∈ l) :
    (treeBlock host hash (Multimap.ofLinks parent l) subtree sortCol ascending root).members =
      treeGroupMembers root (Multimap.ofLinks parent l) := by
  dsimp only [treeBlock]
  by_cases hlen : (treeGroupMembers root (Multimap.ofLinks parent l)).length ≤ 1
  · have hmem := root_mem_treeGroupMembers parent hl hroot
    obtain ⟨x, hx⟩ : ∃ x, treeGroupMembers root (Multimap.ofLinks parent l) = [x] := by
      refine List.length_eq_one_iff.mp (Nat.le_antisymm hlen ?_)
      exact List.length_pos_of_mem hmem
    rw [hx, List.mem_singleton] at hmem
    rw [if_pos hlen, hx, hmem]
  · rw [if_neg hlen]

/-- **The block of a root is valid.** -/
theorem treeBlock_valid {parent : ProcessEntry → Option ℕ} {l : List ProcessEntry}
    (host : PageHost) (hash : PageHash) (subtree : Subtree) (sortCol : ℕ) (ascending : Bool)
    (hl : Distinct l) {root : ProcessEntry} (hroot : root ∈ l) :
    (treeBlock host hash (Multimap.ofLinks parent l) subtree sortCol ascending root).Valid host
      hash := by
  unfold treeBlock
  by_cases hlen : (treeGroupMembers root (Multimap.ofLinks parent l)).length ≤ 1
  · simp only [hlen, if_true]
    exact Block.Valid.single root
  · simp only [hlen, if_false]
    obtain ⟨hperm, hdepth⟩ := expandedTreeListing_spec parent host hl hroot sortCol
      ascending
    exact Block.Valid.group (root_mem_treeGroupMembers parent hl hroot) (Nat.lt_of_not_le hlen)
      ⟨rfl, rfl, rfl, rfl, rfl, rfl, rfl, rfl, rfl, rfl⟩ hperm hdepth

/-- What a table filled from a list with distinct pids holds under a pid of the list. -/
theorem collect_filterMap {α : Type*} {l : List ProcessEntry} (hl : Distinct l)
    (f : ProcessEntry → Option α) {p : ProcessEntry} (hp : p ∈ l) :
    collect (l.filterMap fun q => (f q).map fun a => (q.pid, a)) p.pid = f p := by
  cases hfind : (l.filterMap fun q => (f q).map fun a => (q.pid, a)).reverse.find?
      fun entry => decide (entry.1 = p.pid) with
  | none =>
    rw [collect, hfind, Option.map_none]
    cases hf : f p with
    | none => rfl
    | some a =>
      have hmem : (p.pid, a) ∈ l.filterMap fun q => (f q).map fun a => (q.pid, a) :=
        List.mem_filterMap.mpr ⟨p, hp, by rw [hf, Option.map_some]⟩
      have hne := List.find?_eq_none.mp hfind (p.pid, a) (List.mem_reverse.mpr hmem)
      exact absurd (decide_eq_true rfl) hne
  | some e =>
    have hpid : e.1 = p.pid := by simpa using List.find?_some hfind
    obtain ⟨q, hq, hqe⟩ := List.mem_filterMap.mp
      (List.mem_reverse.mp (List.mem_of_find?_eq_some hfind))
    obtain ⟨a, ha, rfl⟩ := Option.map_eq_some_iff.mp hqe
    obtain rfl : q = p := Multimap.eq_of_key hl hq hp hpid
    rw [collect, hfind, Option.map_some, ha]

theorem collect_map {α : Type*} {l : List ProcessEntry} (hl : Distinct l)
    (f : ProcessEntry → α) {p : ProcessEntry} (hp : p ∈ l) :
    collect (l.map fun q => (q.pid, f q)) p.pid = some (f p) := by
  have hcollect := collect_filterMap hl (fun q => some (f q)) hp
  simpa only [Option.map_some, List.filterMap_eq_map'] using hcollect

/-- Roots with distinct pids, none of them shown before, are all shown. -/
theorem foldl_emitRoot (host : PageHost) (hash : PageHash) {roots : List ProcessEntry}
    (hroots : Distinct roots) (children : Multimap ℕ ProcessEntry) (subtree : Subtree)
    (sortCol : ℕ) (ascending : Bool) (expanded : Finset ℕ) (sorted : List ProcessEntry)
    (hsorted : Distinct sorted) (hmem : ∀ root ∈ sorted, root ∈ roots) :
    ∀ (removed : Finset ℕ) (out : List DisplayRow), (∀ root ∈ sorted, root.pid ∉ removed) →
      (sorted.foldl (emitRoot host children subtree sortCol ascending expanded
        (treeTables hash roots children)) (removed, out)).2 =
        out ++ sorted.flatMap fun root =>
          (treeBlock host hash children subtree sortCol ascending root).rows expanded := by
  induction sorted with
  | nil =>
    intro removed out _
    simp
  | cons root sorted ih =>
    intro removed out hremoved
    have hroot : root ∈ roots := hmem root List.mem_cons_self
    have hnot : root.pid ∉ removed := hremoved root List.mem_cons_self
    obtain ⟨hfresh, hrest⟩ := List.nodup_cons.mp hsorted
    have hgroup : (treeTables hash roots children).groups root.pid = _ :=
      collect_map hroots (fun root => treeGroupMembers root children) hroot
    have hshown : (treeTables hash roots children).shown root.pid = _ :=
      collect_map hroots (fun root => treeValues hash root (treeGroupMembers root children)) hroot
    have hnext : ∀ p ∈ sorted, p.pid ∉ insert root.pid removed := by
      intro p hp hmem'
      rcases Finset.mem_insert.mp hmem' with heq | hmem'
      · exact hfresh (heq ▸ List.mem_map_of_mem hp)
      · exact hremoved p (List.mem_cons_of_mem _ hp) hmem'
    rw [List.foldl_cons, List.flatMap_cons, rows_treeBlock]
    simp only [emitRoot, hnot, if_false, hgroup, hshown, Option.getD_some]
    rw [ih hrest (fun p hp => hmem p (List.mem_cons_of_mem _ hp)) _ _ hnext, List.append_assoc]

/-- **The rows of the section are those of one block for each root.** -/
theorem emitTree_eq (host : PageHost) (hash : PageHash) {roots : List ProcessEntry}
    (hroots : Distinct roots) (children : Multimap ℕ ProcessEntry) (subtree : Subtree)
    (sortCol : ℕ) (ascending : Bool) (expanded : Finset ℕ) :
    emitTree host hash roots children subtree sortCol ascending expanded =
      (sortEntries host roots sortCol ascending (treeTables hash roots children).shown).flatMap
        fun root => (treeBlock host hash children subtree sortCol ascending root).rows
          expanded := by
  have hperm : (sortEntries host roots sortCol ascending
      (treeTables hash roots children).shown).Perm roots := sortBy_perm _ roots
  have hsorted := (hperm.map ProcessEntry.pid).nodup_iff.mpr hroots
  have hfold := foldl_emitRoot host hash hroots children subtree sortCol ascending expanded _
    hsorted (fun root h => hperm.mem_iff.mp h) ∅ [] (by simp)
  rw [emitTree, hfold, List.nil_append]

end Processes

end Taskman
