import Taskman.App.Processes.Order
import Mathlib.Algebra.Order.Field.Rat

/-!
# Columns of the Details page

Every column compares processes in its own way; a missing text or measurement comes last where the
source says so.  The hierarchical order ignores the column and goes by creation.

* `Details.ColumnId.compare` : the comparison of a column;
* `Details.processOrder` : the order of a list of processes, with the pid as the last tie-break;
* `Details.sortProcesses_eq_of_perm` : **processes with distinct pids sort to one list in whatever
  order they come**.
-/

namespace Taskman

namespace Details

/-! ### Comparisons -/

/-- `cmp_option_str` and `cmp_option_f64`: what is missing comes last. -/
def cmpOption {α : Type*} (cmp : α → α → Ordering) : Option α → Option α → Ordering
  | some x, some y => cmp x y
  | some _, none => .lt
  | none, some _ => .gt
  | none, none => .eq

instance {α : Type*} {cmp : α → α → Ordering} [Std.TransCmp cmp] :
    Std.TransCmp (cmpOption cmp) where
  eq_swap {x y} := by
    cases x <;> cases y <;> simp [cmpOption]
    exact Std.OrientedCmp.eq_swap
  isLE_trans {x y z} hxy hyz := by
    cases x <;> cases y <;> cases z <;> simp_all [cmpOption]
    exact Std.TransCmp.isLE_trans hxy hyz

/-- A comparison of processes by a value of theirs. -/
def compareBy {α : Type*} (cmp : α → α → Ordering) (f : ProcessEntry → α) (a b : ProcessEntry) :
    Ordering := cmp (f a) (f b)

instance {α : Type*} {cmp : α → α → Ordering} [Std.TransCmp cmp] {f : ProcessEntry → α} :
    Std.TransCmp (compareBy cmp f) where
  eq_swap {a b} := @Std.OrientedCmp.eq_swap _ cmp _ (f a) (f b)
  isLE_trans {a b c} := @Std.TransCmp.isLE_trans _ cmp _ (f a) (f b) (f c)

instance (host : PageHost) : Std.TransCmp (Processes.cmpIgnoreCase host) where
  eq_swap := Std.OrientedOrd.eq_swap
  isLE_trans := Std.TransOrd.isLE_trans

/-- `status_rank`. -/
def statusRank : ProcStatus → ℕ
  | .running => 0
  | .suspended => 1
  | .notResponding => 2

/-- `uac_rank`. -/
def uacRank : Option UacVirtualization → ℕ
  | none => 3
  | some .disabled => 0
  | some .enabled => 1
  | some .notAllowed => 2
  | some .unknown => 3

/-- Combined current network rate, without turning missing telemetry into zero. -/
def processNetworkRate (p : ProcessEntry) : Option ℚ :=
  match p.netRecvBps, p.netSentBps with
  | none, none => none
  | recv, sent => some (recv.getD 0 + sent.getD 0)

/-- Combined current disk throughput. -/
def processIoTotalRate (p : ProcessEntry) : ℚ := p.diskReadBps + p.diskWriteBps

/-! ### Columns -/

/-- The columns of the page. -/
inductive ColumnId where
  | name | pid | status | user | userSid | cpu | memory | network | networkReceive | networkSend
  | platform | elevated | uac | gpuUtil | gpuEngine | priority | threads | handles | cpuTime
  | commit | peakMemory | workingSet | sharedWorkingSet | gpuDedicated | gpuShared | description
  | publisher | parentPid | sessionId | imagePath | pageFaults | ioTotal | ioRead | ioWrite
  | diskActivity | ioOps | hardFaults | commandLine
  deriving DecidableEq

/-- Which of two processes comes first in a column. -/
def ColumnId.compare (host : PageHost) : ColumnId → ProcessEntry → ProcessEntry → Ordering
  | .name => compareBy (Processes.cmpIgnoreCase host) fun p => p.name
  | .pid => compareOn fun p => p.pid
  | .status => compareOn fun p => statusRank p.status
  | .user => compareBy (cmpOption (Processes.cmpIgnoreCase host)) fun p => p.user
  | .userSid => compareBy (cmpOption (Processes.cmpIgnoreCase host)) fun p => p.userSid
  | .cpu => compareOn fun p => p.cpuPct
  | .memory => compareOn fun p => p.memBytes
  | .network => compareBy (cmpOption Ord.compare) processNetworkRate
  | .networkReceive => compareBy (cmpOption Ord.compare) fun p => p.netRecvBps
  | .networkSend => compareBy (cmpOption Ord.compare) fun p => p.netSentBps
  | .platform => compareOn fun p => p.wow64
  | .elevated => compareOn fun p => p.elevated
  | .uac => compareOn fun p => uacRank p.uacVirtualization
  | .gpuUtil => compareOn fun p => p.gpuUtilPct
  | .gpuEngine => compareBy (cmpOption (Processes.cmpIgnoreCase host)) fun p => p.gpuEngineLabel
  -- the classes in the order they are declared
  | .priority => compareOn fun p => p.priority.ctorIdx
  | .threads => compareOn fun p => p.threads
  | .handles => compareOn fun p => p.handles
  | .cpuTime => compareBy (cmpOption Ord.compare) fun p => p.cpuTimeS
  | .commit => compareOn fun p => p.commitBytes
  | .peakMemory => compareOn fun p => p.peakMemBytes
  | .workingSet => compareOn fun p => p.workingSetBytes
  | .sharedWorkingSet => compareOn ProcessEntry.sharedWorkingSetBytes
  | .gpuDedicated => compareOn fun p => p.gpuDedicatedBytes
  | .gpuShared => compareOn fun p => p.gpuSharedBytes
  | .description =>
    compareBy (cmpOption (Processes.cmpIgnoreCase host)) fun p => p.description.or (some p.display)
  | .publisher => compareBy (cmpOption (Processes.cmpIgnoreCase host)) fun p => p.company
  | .parentPid => compareOn fun p => p.ppid
  | .sessionId => compareOn fun p => p.sessionId
  | .imagePath =>
    compareBy (cmpOption (Processes.cmpIgnoreCase host)) fun p => p.exePath.filter fun _ =>
      p.exePathUnicode
  | .pageFaults => compareOn fun p => p.pageFaultsPerS
  | .ioTotal => compareOn processIoTotalRate
  | .ioRead => compareOn fun p => p.diskReadTotal
  | .ioWrite => compareOn fun p => p.diskWriteTotal
  | .diskActivity => compareBy (cmpOption Ord.compare) fun p => p.diskActivePct
  | .ioOps => compareBy (cmpOption Ord.compare) fun p => p.ioOpsPerS
  | .hardFaults => compareBy (cmpOption Ord.compare) fun p => p.hardFaultsPerS
  | .commandLine => compareBy (cmpOption (Processes.cmpIgnoreCase host)) fun p => p.commandLine

instance (host : PageHost) (col : ColumnId) : Std.TransCmp (col.compare host) := by
  cases col <;> (unfold ColumnId.compare; infer_instance)

/-! ### Sorting -/

/-- The orders a column can sort in. -/
inductive SortOrder where
  | ascending
  | descending
  /-- The literal parent/child tree. -/
  | hierarchical
  deriving DecidableEq

/-- `SortOrder::ascending`. -/
def SortOrder.isAscending (order : SortOrder) : Bool := order ≠ .descending

/-- The order of one sibling list, or of the flat list. -/
def processOrder (host : PageHost) (sortCol : ColumnId) (order : SortOrder)
    (a b : ProcessEntry) : Ordering :=
  if order = .hierarchical then Processes.creationOrder a b
  else
    let ordering := (sortCol.compare host a b).then (compare a.pid b.pid)
    if order.isAscending then ordering else ordering.swap

@[simp]
theorem processOrder_hierarchical (host : PageHost) (sortCol : ColumnId) :
    processOrder host sortCol .hierarchical = Processes.creationOrder := by
  funext a b
  simp [processOrder]

/-- Processes in the order of a column. -/
def sortProcesses (host : PageHost) (list : List ProcessEntry) (sortCol : ColumnId)
    (order : SortOrder) : List ProcessEntry :=
  sortBy (processOrder host sortCol order) list

instance (host : PageHost) (sortCol : ColumnId) (order : SortOrder) :
    Std.TransCmp (processOrder host sortCol order) := by
  have hup : Std.TransCmp fun a b : ProcessEntry =>
      (sortCol.compare host a b).then (compare a.pid b.pid) :=
    inferInstanceAs (Std.TransCmp (compareLex (sortCol.compare host)
      (compareOn fun p : ProcessEntry => p.pid)))
  cases order with
  | hierarchical => exact inferInstanceAs (Std.TransCmp Processes.creationOrder)
  | ascending => exact hup
  | descending =>
    have hswap : processOrder host sortCol .descending = fun a b =>
        (sortCol.compare host b a).then (compare b.pid a.pid) := by
      funext a b
      exact (hup.eq_swap (a := b) (b := a)).symm
    rw [hswap]
    exact Std.TransCmp.opposite

theorem pid_eq_of_processOrder {host : PageHost} {sortCol : ColumnId} {order : SortOrder}
    {a b : ProcessEntry} (h : processOrder host sortCol order a b = .eq) : a.pid = b.pid := by
  cases order with
  | hierarchical => exact Processes.pid_eq_of_creationOrder h
  | ascending =>
    have hpid : compare a.pid b.pid = .eq := (Ordering.then_eq_eq.mp h).2
    exact compare_eq_iff_eq.mp hpid
  | descending =>
    have hpid : compare a.pid b.pid = .eq := (Ordering.then_eq_eq.mp (Ordering.swap_eq_eq.mp h)).2
    exact compare_eq_iff_eq.mp hpid

/-- **Processes with distinct pids sort to one list in whatever order they come.** -/
theorem sortProcesses_eq_of_perm {host : PageHost} {sortCol : ColumnId} {order : SortOrder}
    {l l' : List ProcessEntry} (hperm : l.Perm l') (h : Processes.Distinct l) :
    sortProcesses host l sortCol order = sortProcesses host l' sortCol order :=
  sortBy_eq_of_perm hperm fun _ ha _ hb heq =>
    Multimap.eq_of_key h ha hb (pid_eq_of_processOrder heq)

end Details

end Taskman
