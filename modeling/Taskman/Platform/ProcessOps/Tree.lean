import Taskman.Collections.Breadth
import Taskman.Collections.Multimap

/-!
# The creation tree of a process

`descendants` searches one kernel snapshot for the processes a root has created, directly or not.
Parent links name pids, and pids are recycled, so a link counts only for a child that is not older
than the process that now holds its parent's pid.

* `CreatedBy`, `InTree` : what the tree of a root is, along recorded links and creation times;
* `descendants` : the search over the snapshot;
* `descendants_spec` : **in a table with unique pids it finds the tree without its root, each
  process once and after its parent**.
-/

namespace Taskman.ProcessOps

/-- One process's link in the creation tree, as a single kernel snapshot reports it. -/
structure TreeLink where
  pid : ℕ
  /-- Parent pid recorded when the process was created; it may have been recycled since. -/
  parentPid : ℕ
  /-- Creation time as a raw `FILETIME`. -/
  createTime : UInt64
  deriving DecidableEq

/-- A pid, with the creation time of the process that holds it. -/
abbrev Node := ℕ × UInt64

/-- A process of the tree, with its creation time. -/
def TreeLink.node (link : TreeLink) : Node := (link.pid, link.createTime)

/-! ### The tree -/

/-- A process of the table names the parent's pid as its own parent, and is no older than it. -/
def CreatedBy (table : List TreeLink) (parent child : Node) : Prop :=
  ∃ link ∈ table, link.parentPid = parent.1 ∧ parent.2 ≤ link.createTime ∧ link.node = child

/-- A pid is in the tree of a root. -/
def InTree (table : List TreeLink) (root : Node) (pid : ℕ) : Prop :=
  ∃ birth, Relation.ReflTransGen (CreatedBy table) root (pid, birth)

/-! ### The search -/

/-- `children_of`: the links by recorded parent pid.  Idle (pid 0) names itself as its parent. -/
def childrenOf (table : List TreeLink) : Multimap ℕ TreeLink :=
  Multimap.ofLinks
    (fun link => if link.pid ≠ link.parentPid then some link.parentPid else none) table

/-- The links under a parent that are not older than it.  An older one is passed over before its
pid is marked as seen. -/
def admissible (table : List TreeLink) (parent : Node) : List TreeLink :=
  ((childrenOf table).get parent.1).filter fun link => ¬ link.createTime < parent.2

/-- Breadth-first search over `table` from `root`. -/
def descendants (root : ℕ) (rootBirth : UInt64) (table : List TreeLink) : List TreeLink :=
  Breadth.search TreeLink.pid TreeLink.node (admissible table) (table.length + 1) root
    (root, rootBirth)

variable {table : List TreeLink} {root : Node}

theorem mem_admissible {parent : Node} {link : TreeLink} :
    link ∈ admissible table parent ↔
      link ∈ table ∧ link.pid ≠ link.parentPid ∧ link.parentPid = parent.1 ∧
        parent.2 ≤ link.createTime := by
  simp only [admissible, childrenOf, List.mem_filter, Multimap.mem_get_ofLinks,
    Option.ite_none_right_eq_some, Option.some.injEq, decide_eq_true_eq, UInt64.not_lt]
  tauto

/-- A link the search can follow. -/
abbrev Descends (table : List TreeLink) (root : Node) : TreeLink → Prop :=
  Breadth.Reached TreeLink.node (admissible table) root

theorem Descends.mem {link : TreeLink} (h : Descends table root link) :
    link ∈ table ∧ link.pid ≠ link.parentPid := by
  cases h with
  | first h => exact ⟨(mem_admissible.mp h).1, (mem_admissible.mp h).2.1⟩
  | next _ h => exact ⟨(mem_admissible.mp h).1, (mem_admissible.mp h).2.1⟩

theorem Descends.le {link : TreeLink} (h : Descends table root link) :
    root.2 ≤ link.createTime := by
  induction h with
  | first h => exact (mem_admissible.mp h).2.2.2
  | next _ h ih => exact UInt64.le_trans ih (mem_admissible.mp h).2.2.2

theorem Descends.reflTransGen {link : TreeLink} (h : Descends table root link) :
    Relation.ReflTransGen (CreatedBy table) root link.node := by
  induction h with
  | first h =>
    obtain ⟨hmem, -, hparent, hle⟩ := mem_admissible.mp h
    exact Relation.ReflTransGen.single ⟨_, hmem, hparent, hle, rfl⟩
  | next _ h ih =>
    obtain ⟨hmem, -, hparent, hle⟩ := mem_admissible.mp h
    exact ih.tail ⟨_, hmem, hparent, hle, rfl⟩

/-- What the tree reaches is the root's pid again, or a link the search can follow. -/
theorem root_or_descends (hpids : (table.map TreeLink.pid).Nodup) {n : Node}
    (h : Relation.ReflTransGen (CreatedBy table) root n) :
    (n.1 = root.1 ∧ root.2 ≤ n.2) ∨ ∃ link, Descends table root link ∧ link.node = n := by
  induction h with
  | refl => exact Or.inl ⟨rfl, UInt64.le_refl _⟩
  | @tail m n _ hstep ih =>
    obtain ⟨link, hmem, hparent, hle, rfl⟩ := hstep
    rcases ih with ⟨hpid, hbirth⟩ | ⟨parent, hdesc, rfl⟩
    · by_cases hself : link.pid = link.parentPid
      · exact Or.inl ⟨(hself.trans hparent).trans hpid, UInt64.le_trans hbirth hle⟩
      · refine Or.inr ⟨link, Breadth.Reached.first (mem_admissible.mpr ?_), rfl⟩
        exact ⟨hmem, hself, hparent.trans hpid, UInt64.le_trans hbirth hle⟩
    · by_cases hself : link.pid = link.parentPid
      · obtain rfl := Multimap.eq_of_key hpids hmem hdesc.mem.1 (hself.trans hparent)
        exact absurd hself hdesc.mem.2
      · exact Or.inr ⟨link, hdesc.next (mem_admissible.mpr ⟨hmem, hself, hparent, hle⟩), rfl⟩

theorem inTree_iff (hpids : (table.map TreeLink.pid).Nodup) {pid : ℕ} :
    InTree table root pid ↔ pid = root.1 ∨ ∃ link, Descends table root link ∧ link.pid = pid := by
  constructor
  · rintro ⟨birth, h⟩
    rcases root_or_descends hpids h with ⟨hpid, -⟩ | ⟨link, hdesc, hnode⟩
    · exact Or.inl hpid
    · exact Or.inr ⟨link, hdesc, congrArg Prod.fst hnode⟩
  · rintro (rfl | ⟨link, hdesc, rfl⟩)
    · exact ⟨root.2, Relation.ReflTransGen.refl⟩
    · exact ⟨link.createTime, hdesc.reflTransGen⟩

/-- **In a table with unique pids the search finds the tree without its root, each process once and
after its parent.** -/
theorem descendants_spec (hpids : (table.map TreeLink.pid).Nodup) (pid : ℕ) (birth : UInt64) :
    ((descendants pid birth table).map TreeLink.pid).Nodup ∧
    (∀ q, q ∈ (descendants pid birth table).map TreeLink.pid ↔
      q ≠ pid ∧ InTree table (pid, birth) q) ∧
    ∀ link ∈ descendants pid birth table, link ∈ table ∧
      (link.parentPid = pid ∨
        [link.parentPid, link.pid].Sublist ((descendants pid birth table).map TreeLink.pid)) := by
  have hcard : ((table.map TreeLink.pid).toFinset).card < table.length + 1 := by
    have hle := List.toFinset_card_le (table.map TreeLink.pid)
    rw [List.length_map] at hle
    omega
  obtain ⟨hnodup, hmem, hthrough⟩ := Breadth.search_spec TreeLink.pid TreeLink.node
    (admissible table) (table.map TreeLink.pid).toFinset (k := pid) (a := (pid, birth))
    (fun x b hb => List.mem_toFinset.mpr (List.mem_map_of_mem (mem_admissible.mp hb).1))
    (fun b c hb hc => Multimap.eq_of_key hpids (Descends.mem hb).1 (Descends.mem hc).1)
    (fun b hb hpid c hc => by
      -- a link back to the root's pid is no older than the root
      obtain ⟨hc, hself, hparent, hle⟩ := mem_admissible.mp hc
      exact mem_admissible.mpr
        ⟨hc, hself, hparent.trans hpid, UInt64.le_trans (Descends.le hb) hle⟩) hcard
  change ((descendants pid birth table).map TreeLink.pid).Nodup at hnodup
  change ∀ b, b ∈ descendants pid birth table ↔ _ at hmem
  change ∀ pre b post, descendants pid birth table = pre ++ b :: post → _ at hthrough
  refine ⟨hnodup, fun q => ?_, fun link hlink => ⟨(Descends.mem ((hmem link).mp hlink).1).1, ?_⟩⟩
  · rw [inTree_iff hpids, List.mem_map]
    constructor
    · rintro ⟨link, hlink, rfl⟩
      obtain ⟨hdesc, hne⟩ := (hmem link).mp hlink
      exact ⟨hne, Or.inr ⟨link, hdesc, rfl⟩⟩
    · rintro ⟨hne, heq | ⟨link, hdesc, rfl⟩⟩
      · exact absurd heq hne
      · exact ⟨link, (hmem link).mpr ⟨hdesc, hne⟩, rfl⟩
  · obtain ⟨pre, post, hsplit⟩ := List.append_of_mem hlink
    rcases hthrough pre link post hsplit with hfirst | ⟨parent, hparent, hnext⟩
    · exact Or.inl (mem_admissible.mp hfirst).2.2.1
    · right
      rw [(mem_admissible.mp hnext).2.2.1, hsplit, List.map_append, List.map_cons]
      have hone : [parent.pid].Sublist (pre.map TreeLink.pid) :=
        List.singleton_sublist.mpr (List.mem_map_of_mem hparent)
      have htwo : [link.pid].Sublist (link.pid :: post.map TreeLink.pid) :=
        List.singleton_sublist.mpr List.mem_cons_self
      exact hone.append htwo

/-- Older strangers under recycled pids are left out, and a cycle of links ends the search. -/
example : (descendants 100 1000
    [⟨100, 4, 1000⟩, ⟨200, 100, 500⟩, ⟨201, 200, 600⟩, ⟨300, 100, 1500⟩, ⟨400, 300, 1600⟩,
      ⟨500, 300, 1200⟩, ⟨0, 0, 0⟩]).map TreeLink.pid = [300, 400] := by
  decide +kernel

end Taskman.ProcessOps
