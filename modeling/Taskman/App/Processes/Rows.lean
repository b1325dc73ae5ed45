import Taskman.App.Search
import Taskman.Collections.SortBy
import Taskman.Core.GroupLoad
import Mathlib.Data.Fin.VecNotation
import Mathlib.Data.Fintype.Basic

/-!
# Rows of the Processes page

A display row is a section header or a process row.  A process row shows one process with its own
values, or, as an aggregate, stands for a group of them; it lists the exact identities that ending
it ends.

* `Processes.RowData`, `Processes.DisplayRow` : the rows;
* `Processes.makeOwnRow` : the row of one process;
* `Processes.familyValues` : what a group's row shows;
* `Processes.sortEntries` : the order of processes for a column;
* `Processes.normalizeHeat` : heat relative to the largest known value of a column.
-/

namespace Taskman

namespace Processes

/-! ### Columns -/

/-- Label and status, which never move. -/
abbrev FIXED_COLS : ℕ := 2

/-- CPU, memory, disk I/O, network, disk active time, GPU. -/
abbrev VALUE_COLS : ℕ := 6

/-- The place of the network rate among the values. -/
abbrev NET_VALUE : Fin VALUE_COLS := 3

/-- The place of the disk activity. -/
abbrev DISK_ACT_VALUE : Fin VALUE_COLS := 4

/-- The place of the GPU load. -/
abbrev GPU_VALUE : Fin VALUE_COLS := 5

/-- One number for each value column. -/
abbrev Values := Fin VALUE_COLS → ℚ

/-- The orders in which the hash tables of one run iterate. -/
structure PageHash where
  appRoots : HashOrder ℕ
  runs : HashOrder (ℕ × Text)
  /-- The tables of a group's loads, one for each group. -/
  disks : List ProcessEntry → HashOrder (ℕ × ℚ)
  gpus : List ProcessEntry → HashOrder ((ℕ × ℕ) × ℚ)

/-- Exact process identity: a pid alone may be reused. -/
structure ProcessIdentity where
  pid : ℕ
  startEpochS : Option ℤ
  deriving DecidableEq, Repr

/-- One process, or a group of them. -/
structure RowData where
  pid : ℕ
  startEpochS : Option ℤ
  depth : ℕ
  name : Text
  iconPath : Option Text
  children : Bool
  /-- Stands for a group, under the identity of its representative. -/
  aggregate : Bool
  /-- The identities this row represents for ending it. -/
  terminationTargets : List ProcessIdentity
  values : Values
  heat : Values
  netAvailable : Bool
  diskAvailable : Bool
  gpuAvailable : Bool
  status : ProcStatus
  powerThrottled : Bool
  synthetic : Bool
  commandLine : Option Text
  tooltip : Option Text
  deriving DecidableEq

/-- A row of the page: the header of a section, or a process. -/
inductive DisplayRow where
  /-- Section index and count. -/
  | groupHeader (gi total : ℕ)
  | process (row : RowData)
  deriving DecidableEq

/-- What tells a process from a later one of its pid. -/
def processIdentity (p : ProcessEntry) : ProcessIdentity := ⟨p.pid, p.startEpochS⟩

/-- The process of a row. -/
def identityOf (row : RowData) : ProcessIdentity := ⟨row.pid, row.startEpochS⟩

/-! ### Names -/

/-- `str::eq_ignore_ascii_case`. -/
def eqIgnoreAsciiCase (a b : Text) : Bool := Text.toAsciiLowercase a == Text.toAsciiLowercase b

/-- "Windows Update", or "Windows Update (+2)", for a service-host row. -/
def serviceHostLabel (p : ProcessEntry) : Option Text :=
  if eqIgnoreAsciiCase p.name "svchost.exe".toList then
    match p.serviceName with
    | none => none
    | some full =>
      if (Text.trim full).isEmpty then none
      else
        match (((Text.trim full).splitOn ',').map Text.trim).filter fun part => !part.isEmpty with
        | [] => none
        | first :: rest =>
          if 0 < rest.length then
            some (first ++ " (+".toList ++ Nat.toDigits 10 rest.length ++ ")".toList)
          else some first
  else none

/-- The friendly description with the image name behind it. -/
def processDisplayName (host : PageHost) (p : ProcessEntry) : Text :=
  match serviceHostLabel p with
  | some label => host.serviceHost ++ ": ".toList ++ label
  | none =>
    if eqIgnoreAsciiCase p.shownName p.name then p.name
    else p.shownName ++ " (".toList ++ p.name ++ ")".toList

/-- Label of an expandable family. -/
def familyLabel (host : PageHost) (head : ProcessEntry) (members : List ProcessEntry) : Text :=
  if members.all fun member => eqIgnoreAsciiCase member.name "svchost.exe".toList then
    host.serviceHost
  else processDisplayName host head

/-- The services of a family, one to a line. -/
def familyTooltip (members : List ProcessEntry) : Option Text :=
  match members.filterMap ProcessEntry.serviceName with
  | [] => none
  | names => some (['\n'].intercalate names)

/-- The number of members behind a group's label. -/
def countLabel (label : Text) (members : List ProcessEntry) : Text :=
  label ++ " [".toList ++ Nat.toDigits 10 members.length ++ "]".toList

/-- What is shown as the command line. -/
def processCommandLine (p : ProcessEntry) : Option Text :=
  if p.synthetic then none
  else
    match (p.commandLine.map Text.trim).filter fun value => !value.isEmpty with
    | some value => some value
    | none =>
      match p.exePath with
      | some path => some path
      | none => some p.name

/-- What accounts for load that no running process does. -/
def syntheticTooltip (host : PageHost) (p : ProcessEntry) : Option Text :=
  if p.synthetic then
    (p.description.filter fun d => !d.isEmpty).map host.terminatedTooltip
  else none

/-! ### Values -/

/-- The process's own values. -/
def ownValues (p : ProcessEntry) : Values :=
  ![p.cpuPct, p.memBytes, p.diskReadBps + p.diskWriteBps,
    p.netRecvBps.getD 0 + p.netSentBps.getD 0, p.diskActivePct.getD 0, p.gpuUtilPct.getD 0]

/-- A rate of the network is known. -/
def netKnown (p : ProcessEntry) : Bool := p.netRecvBps.isSome || p.netSentBps.isSome

/-- Whether the disk trace produced a value for this process. -/
def diskKnown (p : ProcessEntry) : Bool := p.diskActivePct.isSome

/-- Whether the GPU counters produced a value for this process. -/
def gpuKnown (p : ProcessEntry) : Bool := p.gpuUtilPct.isSome

/-- The sum of the members' own values, except that a shared resource counts as its busiest
disk or engine. -/
def familyValues (hash : PageHash) (members : List ProcessEntry) : Values :=
  let total : Values :=
    members.foldl (fun total member i => total i + ownValues member i) fun _ => 0
  let total := Function.update total DISK_ACT_VALUE
    (((DiskGroupLoad members).pct (hash.disks members)).getD 0)
  Function.update total GPU_VALUE (((GpuGroupLoad members).pct (hash.gpus members)).getD 0)

/-- The additive columns. -/
def Additive (i : Fin VALUE_COLS) : Prop := i ≠ DISK_ACT_VALUE ∧ i ≠ GPU_VALUE

instance (i : Fin VALUE_COLS) : Decidable (Additive i) := inferInstanceAs (Decidable (_ ∧ _))

theorem foldl_values (members : List ProcessEntry) (i : Fin VALUE_COLS) :
    ∀ total : Values, members.foldl (fun total member i => total i + ownValues member i) total i =
      total i + (members.map fun member => ownValues member i).sum := by
  induction members with
  | nil =>
    intro total
    simp
  | cons p members ih =>
    intro total
    rw [List.foldl_cons, ih, List.map_cons, List.sum_cons, add_assoc]

/-- **An additive column of a group is the sum over its members.** -/
theorem familyValues_additive (hash : PageHash) (members : List ProcessEntry) {i : Fin VALUE_COLS}
    (hi : Additive i) :
    familyValues hash members i = (members.map fun member => ownValues member i).sum := by
  rw [familyValues, Function.update_of_ne hi.2, Function.update_of_ne hi.1, foldl_values, zero_add]

theorem familyValues_diskAct (hash : PageHash) (members : List ProcessEntry) :
    familyValues hash members DISK_ACT_VALUE =
      ((DiskGroupLoad members).pct (hash.disks members)).getD 0 := by
  rw [familyValues, Function.update_of_ne (by decide), Function.update_self]

theorem familyValues_gpu (hash : PageHash) (members : List ProcessEntry) :
    familyValues hash members GPU_VALUE =
      ((GpuGroupLoad members).pct (hash.gpus members)).getD 0 := by
  rw [familyValues, Function.update_self]

theorem familyValues_eq (hash hash' : PageHash) (members : List ProcessEntry) :
    familyValues hash members = familyValues hash' members := by
  rw [familyValues, familyValues, BusiestShare.pct_eq _ (hash.disks members) (hash'.disks members),
    BusiestShare.pct_eq _ (hash.gpus members) (hash'.gpus members)]

/-! ### Sorting -/

/-- The status column: a throttled process after the others of its status. -/
def processStatusRank (p : ProcessEntry) : ℕ × Bool :=
  (match p.status with
    | .running => 0
    | .suspended => 1
    | .notResponding => 2,
    p.powerThrottled == some true)

/-- The order of texts whatever their case. -/
def cmpIgnoreCase (host : PageHost) (a b : Text) : Ordering :=
  compare (a.flatMap host.charToLowercase) (b.flatMap host.charToLowercase)

/-- The value column behind a logical column. -/
def valueColumn (col : ℕ) : Option (Fin VALUE_COLS) :=
  if h : FIXED_COLS ≤ col ∧ col - FIXED_COLS < VALUE_COLS then some ⟨col - FIXED_COLS, h.2⟩
  else none

/-- An order, or the opposite one. -/
def directed (o : Ordering) (asc : Bool) : Ordering := if asc then o else o.swap

/-- Which of two processes comes first: by the column, then by pid. -/
def entryOrder (host : PageHost) (col : ℕ) (asc : Bool) (values : ℕ → Option Values)
    (a b : ProcessEntry) : Ordering :=
  let sv (p : ProcessEntry) (i : Fin VALUE_COLS) : ℚ := (values p.pid).elim 0 fun s => s i
  let o :=
    match valueColumn col with
    | some index => compare (sv a index) (sv b index)
    | none =>
      if col = 1 then
        (compare (processStatusRank a).1 (processStatusRank b).1).then
          (compare (processStatusRank a).2 (processStatusRank b).2)
      else cmpIgnoreCase host a.shownName b.shownName
  (directed o asc).then (compare a.pid b.pid)

/-- Processes in the order of a column. -/
def sortEntries (host : PageHost) (v : List ProcessEntry) (col : ℕ) (asc : Bool)
    (values : ℕ → Option Values) : List ProcessEntry :=
  sortBy (entryOrder host col asc values) v

/-- A table from pids, filled from a list: of two entries with one pid the later stays. -/
def collect {α : Type*} (l : List (ℕ × α)) (pid : ℕ) : Option α :=
  (l.reverse.find? fun entry => decide (entry.1 = pid)).map Prod.snd

/-- The own values of some processes, by pid. -/
def ownTable (l : List ProcessEntry) : ℕ → Option Values :=
  collect (l.map fun p => (p.pid, ownValues p))

/-! ### Process rows -/

/-- The row of one process, with its own values. -/
def makeOwnRow (host : PageHost) (p : ProcessEntry) (depth : ℕ) : RowData where
  pid := p.pid
  startEpochS := p.startEpochS
  depth := depth
  name := processDisplayName host p
  iconPath := p.exePath
  children := false
  aggregate := false
  terminationTargets := [processIdentity p]
  values := ownValues p
  heat _ := 0
  netAvailable := netKnown p
  diskAvailable := diskKnown p
  gpuAvailable := gpuKnown p
  status := p.status
  powerThrottled := p.powerThrottled == some true
  synthetic := p.synthetic
  commandLine := processCommandLine p
  tooltip := syntheticTooltip host p

/-- The row of one process in the flat list of a search. -/
def makeFlatRow (host : PageHost) (p : ProcessEntry) : RowData := makeOwnRow host p 0

/-- The identities a group's row stands for. -/
def groupTargets (members : List ProcessEntry) : List ProcessIdentity :=
  (members.filter fun member => !member.synthetic).map processIdentity

/-! ### Heat -/

/-- A cell whose value is unknown neither colours the heat band nor pulls the maximum. -/
def valueKnown (d : RowData) (i : Fin VALUE_COLS) : Bool :=
  if i = NET_VALUE then d.netAvailable
  else if i = DISK_ACT_VALUE then d.diskAvailable
  else if i = GPU_VALUE then d.gpuAvailable
  else true

/-- A value as a share of the largest one. -/
def norm (value max' : ℚ) : ℚ := if max' ≤ 0 then 0 else max 0 (min 1 (value / max'))

/-- The largest known value of a column, at least zero. -/
def columnMax (rows : List DisplayRow) (i : Fin VALUE_COLS) : ℚ :=
  rows.foldl (fun acc r =>
    match r with
    | .groupHeader _ _ => acc
    | .process d => if valueKnown d i then max acc (d.values i) else acc) 0

/-- A row with its heat, given the largest values of the columns. -/
def RowData.withHeat (d : RowData) (maxima : Values) : RowData :=
  { d with heat := fun i => if valueKnown d i then norm (d.values i) (maxima i) else 0 }

/-- A row with its colours. -/
def heatRow (maxima : Values) (r : DisplayRow) : DisplayRow :=
  match r with
  | .groupHeader gi total => .groupHeader gi total
  | .process d => .process (d.withHeat maxima)

/-- All rows with their colours. -/
def normalizeHeat (rows : List DisplayRow) : List DisplayRow := rows.map (heatRow (columnMax rows))

end Processes

end Taskman
