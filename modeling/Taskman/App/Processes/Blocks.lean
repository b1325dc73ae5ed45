import Taskman.App.Processes.Rows
import Mathlib.Algebra.Order.BigOperators.Group.List
import Mathlib.Data.Nat.Cast.Order.Ring
import Mathlib.Tactic.FinCases

/-!
# Blocks of the Processes page

The emitters of the page produce self-contained blocks: a row of depth 0, and, when it stands for a
group and is expanded, the rows of the group's members.  A block knows the processes it stands for.

* `Processes.Block`, `Processes.Block.rows` : a block, and its rows for a set of expanded pids;
* `Processes.Block.Valid` : the head is the row of one process, or sums up a group whose members
  are the rows under it;
* `Processes.Block.Valid.le_head` : **no member row shows more than its head**;
* `Processes.Block.Valid.additive` : an additive column of the head is the sum over the processes.
-/

namespace Taskman

namespace Processes

/-- A head row, the rows under it, and the processes they stand for. -/
structure Block where
  root : ProcessEntry
  members : List ProcessEntry
  head : RowData
  body : List RowData

/-- The rows of a block. -/
def Block.rows (expanded : Finset ℕ) (b : Block) : List DisplayRow :=
  .process b.head ::
    if b.head.aggregate = true ∧ b.head.pid ∈ expanded then b.body.map .process else []

/-- The head of a group: the representative's identity, the members' targets and values. -/
structure GroupHead (hash : PageHash) (root : ProcessEntry) (members : List ProcessEntry)
    (head : RowData) : Prop where
  pid : head.pid = root.pid
  start : head.startEpochS = root.startEpochS
  depth : head.depth = 0
  aggregate : head.aggregate = true
  synthetic : head.synthetic = false
  targets : head.terminationTargets = groupTargets members
  values : head.values = familyValues hash members
  net : head.netAvailable = members.any netKnown
  disk : head.diskAvailable = members.any diskKnown
  gpu : head.gpuAvailable = members.any gpuKnown

/-- The rows of some processes at some depths. -/
def memberRows (host : PageHost) (listing : List (ProcessEntry × ℕ)) : List RowData :=
  listing.map fun x => makeOwnRow host x.1 x.2

/-- A block of one process, or of a group whose members are the rows under its head. -/
inductive Block.Valid (host : PageHost) (hash : PageHash) : Block → Prop
  | single (p : ProcessEntry) : Valid host hash ⟨p, [p], makeOwnRow host p 0, []⟩
  | group {root : ProcessEntry} {members : List ProcessEntry} {head : RowData}
      {listing : List (ProcessEntry × ℕ)} (hroot : root ∈ members) (hcount : 1 < members.length)
      (hhead : GroupHead hash root members head) (hlisting : (listing.map Prod.fst).Perm members)
      (hdepth : ∀ x ∈ listing, 1 ≤ x.2) :
      Valid host hash ⟨root, members, head, memberRows host listing⟩

/-! ### Measured values -/

/-- Nothing negative, and a busy disk or engine is one of the shares and at most 100 %. -/
structure Measured (p : ProcessEntry) : Prop where
  cpu : 0 ≤ p.cpuPct
  diskRead : 0 ≤ p.diskReadBps
  diskWrite : 0 ≤ p.diskWriteBps
  netRecv : ∀ v, p.netRecvBps = some v → 0 ≤ v
  netSent : ∀ v, p.netSentBps = some v → 0 ≤ v
  disk : BusiestShare.Reported p.diskActivePct
    (p.diskActiveByDisk.map fun share => (share.disk, share.activePct))
  gpu : BusiestShare.Reported p.gpuUtilPct
    (p.gpuEngines.map fun share => ((share.adapter, share.engine), share.utilPct))
  disk_le : ∀ v, p.diskActivePct = some v → v ≤ 100
  gpu_le : ∀ v, p.gpuUtilPct = some v → v ≤ 100

theorem getD_nonneg {o : Option ℚ} (h : ∀ v, o = some v → 0 ≤ v) : 0 ≤ o.getD 0 := by
  cases o with
  | none => exact le_refl 0
  | some v => exact h v rfl

theorem Measured.ownValues_nonneg {p : ProcessEntry} (h : Measured p) (i : Fin VALUE_COLS) :
    0 ≤ ownValues p i := by
  fin_cases i
  · exact h.cpu
  · exact Nat.cast_nonneg p.memBytes
  · exact add_nonneg h.diskRead h.diskWrite
  · exact add_nonneg (getD_nonneg h.netRecv) (getD_nonneg h.netSent)
  · exact getD_nonneg h.disk.own_nonneg
  · exact getD_nonneg h.gpu.own_nonneg

theorem ownValues_diskAct (p : ProcessEntry) :
    ownValues p DISK_ACT_VALUE = p.diskActivePct.getD 0 := rfl

theorem ownValues_gpu (p : ProcessEntry) : ownValues p GPU_VALUE = p.gpuUtilPct.getD 0 := rfl

/-- Whether a process's own value of a column is known. -/
def ownKnown (p : ProcessEntry) (i : Fin VALUE_COLS) : Bool :=
  if i = NET_VALUE then netKnown p
  else if i = DISK_ACT_VALUE then diskKnown p
  else if i = GPU_VALUE then gpuKnown p
  else true

@[simp]
theorem valueKnown_makeOwnRow (host : PageHost) (p : ProcessEntry) (depth : ℕ)
    (i : Fin VALUE_COLS) : valueKnown (makeOwnRow host p depth) i = ownKnown p i := rfl

theorem GroupHead.valueKnown_eq {hash : PageHash} {root : ProcessEntry}
    {members : List ProcessEntry} {head : RowData} (h : GroupHead hash root members head)
    {p : ProcessEntry} (hp : p ∈ members) {i : Fin VALUE_COLS} (hknown : ownKnown p i = true) :
    valueKnown head i = true := by
  unfold ownKnown at hknown
  unfold valueKnown
  split_ifs at hknown ⊢
  · rw [h.net, List.any_eq_true]
    exact ⟨p, hp, hknown⟩
  · rw [h.disk, List.any_eq_true]
    exact ⟨p, hp, hknown⟩
  · rw [h.gpu, List.any_eq_true]
    exact ⟨p, hp, hknown⟩
  · rfl

/-- **What a group shows is at least what each member shows.** -/
theorem le_familyValues (hash : PageHash) {members : List ProcessEntry}
    (h : ∀ p ∈ members, Measured p) {p : ProcessEntry} (hp : p ∈ members) {i : Fin VALUE_COLS}
    (hknown : ownKnown p i = true) : ownValues p i ≤ familyValues hash members i := by
  by_cases hdisk : i = DISK_ACT_VALUE
  · subst hdisk
    obtain ⟨v, hv⟩ := Option.isSome_iff_exists.mp hknown
    obtain ⟨u, hu, hle⟩ := BusiestShare.le_pct (fun q hq => (h q hq).disk) (hash.disks members)
      hp hv ((h p hp).disk_le v hv)
    rw [ownValues_diskAct, familyValues_diskAct, DiskGroupLoad, hu, hv]
    exact hle
  · by_cases hgpu : i = GPU_VALUE
    · subst hgpu
      obtain ⟨v, hv⟩ := Option.isSome_iff_exists.mp hknown
      obtain ⟨u, hu, hle⟩ := BusiestShare.le_pct (fun q hq => (h q hq).gpu) (hash.gpus members)
        hp hv ((h p hp).gpu_le v hv)
      rw [ownValues_gpu, familyValues_gpu, GpuGroupLoad, hu, hv]
      exact hle
    · rw [familyValues_additive hash members ⟨hdisk, hgpu⟩]
      refine List.single_le_sum ?_ _ (List.mem_map_of_mem hp)
      intro x hx
      obtain ⟨q, hq, rfl⟩ := List.mem_map.mp hx
      exact (h q hq).ownValues_nonneg i

/-! ### What a valid block shows -/

namespace Block.Valid

variable {host : PageHost} {hash : PageHash} {b : Block}

theorem root_mem (h : b.Valid host hash) : b.root ∈ b.members := by
  cases h with
  | single p => exact List.mem_singleton_self p
  | group hroot => exact hroot

theorem depth_head (h : b.Valid host hash) : b.head.depth = 0 := by
  cases h with
  | single p => rfl
  | group hroot hcount hhead => exact hhead.depth

theorem identityOf_head (h : b.Valid host hash) : identityOf b.head = processIdentity b.root := by
  cases h with
  | single p => rfl
  | group hroot hcount hhead => rw [identityOf, processIdentity, hhead.pid, hhead.start]

theorem pid_head (h : b.Valid host hash) : b.head.pid = b.root.pid :=
  congrArg ProcessIdentity.pid h.identityOf_head

/-- The rows under the head are the members', nested. -/
theorem mem_body (h : b.Valid host hash) {row : RowData} (hrow : row ∈ b.body) :
    b.head.aggregate = true ∧
      ∃ p ∈ b.members, ∃ depth, 1 ≤ depth ∧ row = makeOwnRow host p depth := by
  cases h with
  | single p => cases hrow
  | group hroot hcount hhead hlisting hdepth =>
    obtain ⟨x, hx, rfl⟩ := List.mem_map.mp hrow
    have hmember := hlisting.mem_iff.mp (List.mem_map_of_mem hx)
    exact ⟨hhead.aggregate, x.1, hmember, x.2, hdepth x hx, rfl⟩

/-- **No member row shows more than its head.** -/
theorem le_head (h : b.Valid host hash) (hmeasured : ∀ p ∈ b.members, Measured p)
    {row : RowData} (hrow : row ∈ b.body) {i : Fin VALUE_COLS} (hknown : valueKnown row i = true) :
    valueKnown b.head i = true ∧ row.values i ≤ b.head.values i := by
  cases h with
  | single p => cases hrow
  | group hroot hcount hhead hlisting hdepth =>
    obtain ⟨x, hx, rfl⟩ := List.mem_map.mp hrow
    have hmem : x.1 ∈ _ := hlisting.mem_iff.mp (List.mem_map_of_mem hx)
    rw [valueKnown_makeOwnRow] at hknown
    refine ⟨hhead.valueKnown_eq hmem hknown, ?_⟩
    rw [hhead.values]
    exact le_familyValues hash hmeasured hmem hknown

theorem additive (h : b.Valid host hash) {i : Fin VALUE_COLS} (hi : Additive i) :
    b.head.values i = (b.members.map fun p => ownValues p i).sum := by
  cases h with
  | single p => simp [makeOwnRow]
  | group hroot hcount hhead => rw [hhead.values, familyValues_additive hash _ hi]

end Block.Valid

theorem Block.rows_of_not_aggregate {b : Block} (h : b.head.aggregate = false)
    (expanded : Finset ℕ) : b.rows expanded = [.process b.head] := by
  simp [Block.rows, h]

end Processes

end Taskman
