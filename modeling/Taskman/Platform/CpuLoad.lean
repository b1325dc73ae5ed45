import Taskman.Core.Model
import Taskman.Metering.Total
import Mathlib.Data.Finset.Card
import Mathlib.Algebra.Order.Field.Rat
import Mathlib.Tactic.Positivity
import Mathlib.Tactic.GCongr
import Mathlib.Tactic.Linarith

/-!
# Time-based CPU load accounting

`build_sample` compares two readings of the kernel's time accumulators.  A live process is charged
the time it used in the window; what the cores were busy beyond that is unattributed.  Accumulators
are `i64` counts of 100 ns, modelled as integers with the source's saturating subtraction; the
sums and the shares are exact.

* `charge` : the CPU time of the window charged to one live process;
* `identities` : a process is its pid together with its creation time;
* `Accounting` : what one sample has to say about its two readings;
* `buildSample_accounting` : **every sample accounts for its two readings.**
-/

namespace Taskman.CpuLoad

/-- `i64::saturating_sub`. -/
def saturatingSub (a b : ℤ) : ℤ := max (-2 ^ 63) (min (a - b) (2 ^ 63 - 1))

/-- A difference of counters, 0 where they went back. -/
def nonneg (v : ℤ) : ℕ := v.toNat

/-- `f64::EPSILON`. -/
def epsilon : ℚ := 1 / 2 ^ 52

/-- `clamp(0.0, 100.0)`. -/
def clampPct (x : ℚ) : ℚ := max 0 (min x 100)

/-- Per-logical-CPU raw time accumulators (`kernel` includes idle). -/
structure CoreRaw where
  idle : ℤ
  kernel : ℤ
  user : ℤ
  /-- DPC and interrupt servicing time, also inside `kernel`. -/
  servicing : Option ℤ := none

/-- Per-process raw time accumulators. -/
structure ProcRaw where
  /-- Creation time as reported by the kernel; guards against PID reuse. -/
  createTime : ℤ
  kernel : ℤ
  user : ℤ
  handleCount : ℕ := 0
  threadCount : ℕ := 0
  workingSet : ℕ := 0
  workingSetPrivate : ℕ := 0
  peakWorkingSet : ℕ := 0
  commit : ℕ := 0
  /-- Image base name (empty when unparseable). -/
  name : Text := []
  hardFaults : Option ℕ := none
  ioOps : Option ℕ := none
  ioReadBytes : Option ℕ := none
  ioWriteBytes : Option ℕ := none

/-- Per-process load for one sampling window. -/
structure ProcCpu where
  /-- Share of total machine capacity in [0, 100]. -/
  pct : ℚ := 0
  totalTime100ns : ℕ := 0
  ioOpsPerS : Option ℚ := none
  hardFaultsPerS : Option ℚ := none
  ioReadBps : Option ℚ := none
  ioWriteBps : Option ℚ := none
  ioReadTotal : Option ℕ := none
  ioWriteTotal : Option ℕ := none
  deriving DecidableEq

/-- One executable image observed among the processes that terminated during the window. -/
structure ExitedImage where
  name : Text
  count : ℕ
  deriving DecidableEq

/-- One consistent CPU-load sample. -/
structure LoadSample where
  globalPct : ℚ
  perCorePct : List ℚ
  perCoreKernelPct : List ℚ
  globalKernelPct : ℚ
  procs : OrdMap ℕ ProcCpu
  /-- Busy time that could not be charged to any live process, as share of total capacity. -/
  unattributedPct : ℚ
  interruptPct : Option ℚ
  exitedCount : ℕ
  /-- Most frequently exited images, highest count first. -/
  exitedImages : List ExitedImage

/-- The previous readings. -/
structure PrevSample where
  cores : List CoreRaw
  procs : OrdMap ℕ ProcRaw

/-! ### Cores -/

/-- Kernel-mode (non-idle) fraction of one logical CPU in [0, 100]. -/
def coreKernelBusyPct (p c : CoreRaw) : ℚ :=
  let dKernel : ℚ := max (saturatingSub c.kernel p.kernel) 0
  let dUser : ℚ := max (saturatingSub c.user p.user) 0
  let dIdle : ℚ := max (saturatingSub c.idle p.idle) 0
  let total := dKernel + dUser
  if total ≤ epsilon then 0 else clampPct (max (dKernel - dIdle) 0 / total * 100)

/-- Busy fraction of one logical CPU between two readings in [0, 100]. -/
def coreBusyPct (p c : CoreRaw) : ℚ :=
  let dKernel : ℚ := max (saturatingSub c.kernel p.kernel) 0
  let dUser : ℚ := max (saturatingSub c.user p.user) 0
  let dIdle : ℚ := max (saturatingSub c.idle p.idle) 0
  let total := dKernel + dUser
  if total ≤ epsilon then 0 else clampPct ((total - dIdle) / total * 100)

/-- The busy time of one core in the window. -/
def coreBusy100ns (p c : CoreRaw) : ℕ :=
  let dKernel := nonneg (saturatingSub c.kernel p.kernel)
  let dUser := nonneg (saturatingSub c.user p.user)
  let dIdle := nonneg (saturatingSub c.idle p.idle)
  saturatingAdd dKernel dUser - dIdle

/-- The mean of a list of shares. -/
def mean (pcts : List ℚ) : ℚ := if pcts.isEmpty then 0 else pcts.sum / pcts.length

/-! ### Processes -/

/-- The time of a process since its start. -/
def ProcRaw.totalTime (p : ProcRaw) : ℕ := nonneg p.kernel + nonneg p.user

/-- The in-window time of a process, given what the previous reading lists under its pid: the
delta for the same identity, the whole accumulator for a process born in the window. -/
def inWindow (previous : Option ProcRaw) (cur : ProcRaw) : ℕ :=
  match previous with
  | some p =>
    if p.createTime = cur.createTime then cur.totalTime - p.totalTime else cur.totalTime
  | none => cur.totalTime

/-- The rate of a counter over the window, known only for a previous reading of the same
process. -/
def rate (dtS : ℚ) (now before : Option ℕ) : Option ℚ := do
  let now ← now
  let before ← before
  if 0 < dtS then some (((now - before : ℕ) : ℚ) / dtS) else none

/-- A time as share of the whole machine's capacity within the window. -/
def capacity (dtS : ℚ) (nbCores : ℕ) (time100ns : ℕ) : ℚ :=
  let capacity100ns := dtS * 10 ^ 7 * nbCores
  if capacity100ns ≤ epsilon then 0 else clampPct (time100ns / capacity100ns * 100)

/-- One row of the sample. -/
def procCpu (dtS : ℚ) (nbCores : ℕ) (prev : OrdMap ℕ ProcRaw) (pid : ℕ) (cur : ProcRaw) :
    ProcCpu :=
  if pid = 0 then {}
  else
    let previous := prev[pid]?.filter (·.createTime = cur.createTime)
    { pct := capacity dtS nbCores (inWindow prev[pid]? cur)
      totalTime100ns := cur.totalTime
      ioOpsPerS := rate dtS cur.ioOps (previous.bind ProcRaw.ioOps)
      hardFaultsPerS := rate dtS cur.hardFaults (previous.bind ProcRaw.hardFaults)
      ioReadBps := rate dtS cur.ioReadBytes (previous.bind ProcRaw.ioReadBytes)
      ioWriteBps := rate dtS cur.ioWriteBytes (previous.bind ProcRaw.ioWriteBytes)
      ioReadTotal := cur.ioReadBytes
      ioWriteTotal := cur.ioWriteBytes }

/-- The sum of all in-window CPU time chargeable to live processes. -/
def accounted100ns (prev procs : OrdMap ℕ ProcRaw) : ℕ :=
  procs.foldl (fun acc pid cur => if pid = 0 then acc else acc + inWindow prev[pid]? cur) 0

/-- Whether a process of the previous reading is no longer there. -/
def gone (procs : OrdMap ℕ ProcRaw) (pid : ℕ) (p : ProcRaw) : Bool :=
  match procs[pid]? with
  | some c => c.createTime != p.createTime
  | none => true

/-- How many processes have ended since the last sample. -/
def exitedCount (prev procs : OrdMap ℕ ProcRaw) : ℕ :=
  prev.foldl (fun n pid p => if pid = 0 then n else if gone procs pid p then n + 1 else n) 0

/-- How many processes of each name have ended since the last sample. -/
def exitedByName (prev procs : OrdMap ℕ ProcRaw) : OrdMap Text ℕ :=
  prev.foldl (fun m pid p =>
    if pid = 0 then m
    else if gone procs pid p && !p.name.isEmpty then
      m.alter p.name fun count => some (count.getD 0 + 1)
    else m) ∅

/-- The images of the exited processes, the most frequent first, at most eight. -/
def exitedImages (prev procs : OrdMap ℕ ProcRaw) : List ExitedImage :=
  let images := (exitedByName prev procs).toList.map fun a => (⟨a.1, a.2⟩ : ExitedImage)
  (images.mergeSort fun a b =>
    ((compare b.count a.count).then (compare a.name b.name)).isLE).take 8

/-! ### The sample -/

/-- The busy time of all cores together. -/
def busy100ns (prev cores : List CoreRaw) : ℕ :=
  ((cores.zip prev).map fun cp => coreBusy100ns cp.2 cp.1).sum

/-- Interrupt servicing over all cores; unknown when one record does not carry it. -/
def servicing100ns (prev cores : List CoreRaw) : Option ℕ :=
  (cores.zip prev).foldl (fun acc cp => do
    let acc ← acc
    let now ← cp.1.servicing
    let before ← cp.2.servicing
    some (acc + nonneg (saturatingSub now before))) (some 0)

/-- What is shown of two readings that are `dtS` seconds apart. -/
def buildSample (prev : PrevSample) (cores : List CoreRaw) (procs : OrdMap ℕ ProcRaw) (dtS : ℚ) :
    LoadSample :=
  let nbCores := cores.length
  let perCorePct := (cores.zip prev.cores).map fun cp => coreBusyPct cp.2 cp.1
  let perCoreKernelPct := (cores.zip prev.cores).map fun cp => coreKernelBusyPct cp.2 cp.1
  let busy := busy100ns prev.cores cores
  let unattributed100ns := busy - accounted100ns prev.procs procs
  { globalPct := mean perCorePct
    perCorePct
    perCoreKernelPct
    globalKernelPct := mean perCoreKernelPct
    procs := procs.map (procCpu dtS nbCores prev.procs)
    unattributedPct := capacity dtS nbCores unattributed100ns
    interruptPct := (servicing100ns prev.cores cores).map fun t =>
      capacity dtS nbCores (min t busy)
    exitedCount := exitedCount prev.procs procs
    exitedImages := exitedImages prev.procs procs }

/-! ### Shares of a core -/

theorem clampPct_nonneg (x : ℚ) : 0 ≤ clampPct x := le_max_left _ _

theorem clampPct_le (x : ℚ) : clampPct x ≤ 100 := max_le (by norm_num) (min_le_right _ _)

theorem clampPct_mono {x y : ℚ} (h : x ≤ y) : clampPct x ≤ clampPct y :=
  max_le_max le_rfl (min_le_min h le_rfl)

theorem clampPct_of_nonpos {x : ℚ} (h : x ≤ 0) : clampPct x = 0 :=
  max_eq_left ((min_le_left x 100).trans h)

/-- **The kernel share of a core is part of its busy share.** -/
theorem coreKernelBusyPct_le (p c : CoreRaw) : coreKernelBusyPct p c ≤ coreBusyPct p c := by
  unfold coreKernelBusyPct coreBusyPct
  set dKernel : ℚ := max (saturatingSub c.kernel p.kernel : ℤ) 0
  set dUser : ℚ := max (saturatingSub c.user p.user : ℤ) 0
  set dIdle : ℚ := max (saturatingSub c.idle p.idle : ℤ) 0
  have huser : 0 ≤ dUser := le_max_right _ _
  simp only
  split_ifs with htotal
  · exact le_rfl
  · have hpos : 0 < dKernel + dUser := by
      have heps : (0 : ℚ) < epsilon := by norm_num [epsilon]
      exact heps.trans (not_le.mp htotal)
    by_cases hidle : dKernel - dIdle ≤ 0
    · -- more idle than kernel time: no kernel share at all
      rw [max_eq_right hidle, zero_div, zero_mul, clampPct_of_nonpos le_rfl]
      exact clampPct_nonneg _
    · rw [max_eq_left (not_le.mp hidle).le]
      refine clampPct_mono ?_
      have hle : dKernel - dIdle ≤ dKernel + dUser - dIdle := by linarith
      gcongr

theorem coreKernelBusyPct_nonneg (p c : CoreRaw) : 0 ≤ coreKernelBusyPct p c := by
  unfold coreKernelBusyPct
  simp only
  split_ifs
  · exact le_rfl
  · exact clampPct_nonneg _

theorem coreBusyPct_le (p c : CoreRaw) : coreBusyPct p c ≤ 100 := by
  unfold coreBusyPct
  simp only
  split_ifs
  · norm_num
  · exact clampPct_le _

/-! ### Identities -/

/-- The processes of a reading, each as its pid together with its creation time. -/
def identities (procs : OrdMap ℕ ProcRaw) : Finset (ℕ × ℤ) :=
  (procs.toList.map fun a => (a.1, a.2.createTime)).toFinset

/-- What a reading lists for an identity. -/
def reading (procs : OrdMap ℕ ProcRaw) (id : ℕ × ℤ) : Option ProcRaw :=
  procs[id.1]?.filter (·.createTime = id.2)

theorem reading_eq_some_iff {procs : OrdMap ℕ ProcRaw} {id : ℕ × ℤ} {p : ProcRaw} :
    reading procs id = some p ↔ procs[id.1]? = some p ∧ p.createTime = id.2 := by
  rw [reading, Option.filter_eq_some_iff, decide_eq_true_iff]

theorem mem_identities {procs : OrdMap ℕ ProcRaw} {id : ℕ × ℤ} :
    id ∈ identities procs ↔ (reading procs id).isSome := by
  rw [identities, List.mem_toFinset, List.mem_map, Option.isSome_iff_exists]
  constructor
  · rintro ⟨⟨pid, p⟩, hp, rfl⟩
    exact ⟨p, reading_eq_some_iff.mpr
      ⟨Std.ExtTreeMap.mem_toList_iff_getElem?_eq_some.mp hp, rfl⟩⟩
  · rintro ⟨p, hp⟩
    obtain ⟨hp, hct⟩ := reading_eq_some_iff.mp hp
    exact ⟨(id.1, p), Std.ExtTreeMap.mem_toList_iff_getElem?_eq_some.mpr hp, Prod.ext rfl hct⟩

theorem gone_iff {procs : OrdMap ℕ ProcRaw} {pid : ℕ} {p : ProcRaw} :
    gone procs pid p = true ↔ (pid, p.createTime) ∉ identities procs := by
  rw [mem_identities, gone, reading]
  cases hc : procs[pid]? with
  | none => simp
  | some c => simp [Option.filter_some]

/-- The processes of the previous reading that exited in the window. -/
def exited (prev procs : OrdMap ℕ ProcRaw) : List (ℕ × ProcRaw) :=
  prev.toList.filter fun a => a.1 ≠ 0 && gone procs a.1 a.2

theorem exitedCount_eq (prev procs : OrdMap ℕ ProcRaw) :
    exitedCount prev procs = (exited prev procs).length := by
  have hfold (l : List (ℕ × ProcRaw)) (n : ℕ) :
      l.foldl (fun n a => if a.1 = 0 then n else if gone procs a.1 a.2 then n + 1 else n) n =
        n + (l.filter fun a => a.1 ≠ 0 && gone procs a.1 a.2).length := by
    induction l generalizing n with
    | nil => rfl
    | cons a l ih =>
      rw [List.foldl_cons, ih, List.filter_cons]
      by_cases h0 : a.1 = 0
      · simp [h0]
      · by_cases hg : gone procs a.1 a.2 = true
        · simp [h0, hg]
          omega
        · simp [h0, hg]
  rw [exitedCount, Std.ExtTreeMap.foldl_eq_foldl_toList, hfold, Nat.zero_add, exited]

/-- The exited processes are the identities that are gone, the idle process apart. -/
theorem exitedCount_eq_card (prev procs : OrdMap ℕ ProcRaw) :
    exitedCount prev procs =
      ((identities prev \ identities procs).filter fun id => id.1 ≠ 0).card := by
  have hset : (identities prev \ identities procs).filter (fun id => id.1 ≠ 0) =
      ((exited prev procs).map fun a => (a.1, a.2.createTime)).toFinset := by
    ext id
    rw [Finset.mem_filter, Finset.mem_sdiff, List.mem_toFinset, List.mem_map, identities,
      List.mem_toFinset, List.mem_map]
    constructor
    · rintro ⟨⟨⟨a, ha, rfl⟩, hnot⟩, h0⟩
      exact ⟨a, List.mem_filter.mpr ⟨ha, by simpa [gone_iff.mpr hnot] using h0⟩, rfl⟩
    · rintro ⟨a, ha, rfl⟩
      obtain ⟨ha, hcond⟩ := List.mem_filter.mp ha
      obtain ⟨h0, hgone⟩ := Bool.and_eq_true_iff.mp hcond
      exact ⟨⟨⟨a, ha, rfl⟩, gone_iff.mp hgone⟩, by simpa using h0⟩
  have hnodup : ((exited prev procs).map fun a => (a.1, a.2.createTime)).Nodup := by
    refine List.Nodup.of_map Prod.fst ?_
    rw [List.map_map]
    exact (OrdMap.nodup_keys_toList prev).sublist (List.filter_sublist.map _)
  rw [hset, List.toFinset_card_of_nodup hnodup, List.length_map, exitedCount_eq]

/-! ### Charges -/

/-- The in-window time charged to one live process, in terms of identities. -/
def charge (prev : OrdMap ℕ ProcRaw) (pid : ℕ) (cur : ProcRaw) : ℕ :=
  (reading prev (pid, cur.createTime)).elim cur.totalTime fun p => cur.totalTime - p.totalTime

theorem inWindow_eq_charge (prev : OrdMap ℕ ProcRaw) (pid : ℕ) (cur : ProcRaw) :
    inWindow prev[pid]? cur = charge prev pid cur := by
  unfold inWindow charge reading
  cases hp : prev[pid]? with
  | none => rfl
  | some p =>
    by_cases hct : p.createTime = cur.createTime
    · simp [Option.filter_some, hct]
    · simp [Option.filter_some, hct]

theorem accounted100ns_eq_total (prev procs : OrdMap ℕ ProcRaw) :
    accounted100ns prev procs =
      procs.total fun pid cur => if pid = 0 then 0 else charge prev pid cur := by
  have hfold (l : List (ℕ × ProcRaw)) (acc : ℕ) :
      l.foldl (fun acc a => if a.1 = 0 then acc else acc + inWindow prev[a.1]? a.2) acc =
        acc + (l.map fun a => if a.1 = 0 then 0 else charge prev a.1 a.2).sum := by
    induction l generalizing acc with
    | nil => rfl
    | cons a l ih =>
      rw [List.foldl_cons, ih, List.map_cons, List.sum_cons, inWindow_eq_charge]
      split_ifs <;> omega
  rw [accounted100ns, Std.ExtTreeMap.foldl_eq_foldl_toList, hfold, Nat.zero_add, OrdMap.total]

theorem procCpu_congr {dtS : ℚ} {nbCores : ℕ} {prev prev' : OrdMap ℕ ProcRaw} {pid : ℕ}
    {cur : ProcRaw}
    (h : reading prev (pid, cur.createTime) = reading prev' (pid, cur.createTime)) :
    procCpu dtS nbCores prev pid cur = procCpu dtS nbCores prev' pid cur := by
  have hcharge : charge prev pid cur = charge prev' pid cur := by rw [charge, charge, h]
  unfold reading at h
  simp only [procCpu, inWindow_eq_charge, hcharge, h]

theorem getElem?_buildSample (prev : PrevSample) (cores : List CoreRaw)
    (procs : OrdMap ℕ ProcRaw) (dtS : ℚ) (pid : ℕ) :
    (buildSample prev cores procs dtS).procs[pid]? =
      procs[pid]?.map (procCpu dtS cores.length prev.procs pid) :=
  Std.ExtTreeMap.getElem?_map

/-- What a sample has to say about its two readings. -/
structure Accounting (prev : PrevSample) (cores : List CoreRaw) (procs : OrdMap ℕ ProcRaw)
    (dtS : ℚ) : Prop where
  /-- The row of a live process shows its charge, taken against the reading of its identity. -/
  charged : ∀ (pid : ℕ) (cur : ProcRaw), pid ≠ 0 → procs[pid]? = some cur →
    ∃ row, (buildSample prev cores procs dtS).procs[pid]? = some row ∧
      row.pct = capacity dtS cores.length (charge prev.procs pid cur)
  /-- Nothing in the row depends on what was read for another identity. -/
  sameIdentity : ∀ (prev' : PrevSample) (pid : ℕ) (cur : ProcRaw), procs[pid]? = some cur →
    reading prev'.procs (pid, cur.createTime) = reading prev.procs (pid, cur.createTime) →
    (buildSample prev' cores procs dtS).procs[pid]? =
      (buildSample prev cores procs dtS).procs[pid]?
  /-- The exited count is the number of previous identities absent now, the idle process's
  apart. -/
  exited : (buildSample prev cores procs dtS).exitedCount =
    ((identities prev.procs \ identities procs).filter fun id => id.1 ≠ 0).card
  /-- Live charges and remainder cover the busy time, and no more than it where the charges fit
  in. -/
  covered : ∃ accounted unattributed : ℕ,
    accounted = (procs.total fun pid cur => if pid = 0 then 0 else charge prev.procs pid cur) ∧
    (buildSample prev cores procs dtS).unattributedPct =
      capacity dtS cores.length unattributed ∧
    busy100ns prev.cores cores ≤ accounted + unattributed ∧
    (accounted ≤ busy100ns prev.cores cores →
      accounted + unattributed = busy100ns prev.cores cores)
  /-- Each core's shares are ordered. -/
  cores : List.Forall₂ (fun kernel busy : ℚ => 0 ≤ kernel ∧ kernel ≤ busy ∧ busy ≤ 100)
    (buildSample prev cores procs dtS).perCoreKernelPct
    (buildSample prev cores procs dtS).perCorePct

/-- **Every sample accounts for its two readings**, whatever exits, appears or reuses a pid
between them. -/
theorem buildSample_accounting (prev : PrevSample) (cores : List CoreRaw)
    (procs : OrdMap ℕ ProcRaw) (dtS : ℚ) : Accounting prev cores procs dtS where
  charged pid cur h0 hcur := by
    refine ⟨procCpu dtS cores.length prev.procs pid cur, ?_, ?_⟩
    · rw [getElem?_buildSample, hcur, Option.map_some]
    · rw [procCpu, if_neg h0, inWindow_eq_charge]
  sameIdentity prev' pid cur hcur h := by
    rw [getElem?_buildSample, getElem?_buildSample, hcur, Option.map_some, Option.map_some,
      procCpu_congr h]
  exited := exitedCount_eq_card prev.procs procs
  covered := by
    refine ⟨accounted100ns prev.procs procs,
      busy100ns prev.cores cores - accounted100ns prev.procs procs,
      accounted100ns_eq_total prev.procs procs, rfl, ?_, fun hle => ?_⟩
    · omega
    · omega
  cores := by
    show List.Forall₂ _ (List.map _ _) (List.map _ _)
    rw [List.forall₂_map_left_iff, List.forall₂_map_right_iff, List.forall₂_same]
    exact fun cp _ => ⟨coreKernelBusyPct_nonneg cp.2 cp.1, coreKernelBusyPct_le cp.2 cp.1,
      coreBusyPct_le cp.2 cp.1⟩

/-- The idle process's row is missing from the second reading: it is not counted as exited. -/
theorem exitedCount_idle :
    ∃ (prev : PrevSample) (cores : List CoreRaw) (procs : OrdMap ℕ ProcRaw) (dtS : ℚ),
      (buildSample prev cores procs dtS).exitedCount ≠
        (identities prev.procs \ identities procs).card := by
  let idle : ProcRaw := { createTime := 0, kernel := 0, user := 0 }
  refine ⟨⟨[], (∅ : OrdMap ℕ ProcRaw).insert 0 idle⟩, [], ∅, 1, ?_⟩
  decide

/-- Interrupt servicing is never more than what was busy. -/
theorem interruptPct_le (prev : PrevSample) (cores : List CoreRaw) (procs : OrdMap ℕ ProcRaw)
    (dtS : ℚ) :
    ∀ i ∈ (buildSample prev cores procs dtS).interruptPct,
      i ≤ capacity dtS cores.length (busy100ns prev.cores cores) := by
  intro i hi
  obtain ⟨t, _, rfl⟩ := Option.map_eq_some_iff.mp hi
  unfold capacity
  simp only
  split_ifs with hcap
  · exact le_rfl
  · have hpos : 0 < dtS * 10 ^ 7 * (cores.length : ℚ) := by
      have heps : (0 : ℚ) < epsilon := by norm_num [epsilon]
      exact heps.trans (not_le.mp hcap)
    refine clampPct_mono ?_
    have hmin : ((min t (busy100ns prev.cores cores) : ℕ) : ℚ) ≤ busy100ns prev.cores cores :=
      Nat.cast_le.mpr (min_le_right _ _)
    gcongr

/-! ### Exited images -/

/-- Counting one exited process under its image name. -/
def countName (m : OrdMap Text ℕ) (a : ℕ × ProcRaw) : OrdMap Text ℕ :=
  if a.2.name.isEmpty then m else m.alter a.2.name fun count => some (count.getD 0 + 1)

theorem exitedByName_eq (prev procs : OrdMap ℕ ProcRaw) :
    exitedByName prev procs = (exited prev procs).foldl countName ∅ := by
  rw [exitedByName, Std.ExtTreeMap.foldl_eq_foldl_toList, exited, List.foldl_filter]
  congr 1
  funext m a
  unfold countName
  by_cases h0 : a.1 = 0
  · simp [h0]
  · by_cases hg : gone procs a.1 a.2 = true
    · by_cases hn : a.2.name.isEmpty = true <;> simp [h0, hg, hn]
    · simp [h0, hg]

theorem getElem?_foldl_countName (l : List (ℕ × ProcRaw)) (m : OrdMap Text ℕ) {name : Text}
    (hname : name ≠ []) :
    ((l.foldl countName m)[name]?).getD 0 =
      m[name]?.getD 0 + l.countP fun a => a.2.name = name := by
  induction l generalizing m with
  | nil => rfl
  | cons a l ih =>
    rw [List.foldl_cons, ih, List.countP_cons, countName]
    by_cases hempty : a.2.name.isEmpty = true
    · have hne : a.2.name ≠ name := fun h => hname (h ▸ List.isEmpty_iff.mp hempty)
      simp [hempty, hne]
    · rw [if_neg hempty, OrdMap.getElem?_alter]
      by_cases heq : a.2.name = name
      · simp only [heq, if_true, Option.getD_some, decide_true]
        omega
      · simp [heq]

theorem getElem?_foldl_countName_nil (l : List (ℕ × ProcRaw)) (m : OrdMap Text ℕ) :
    (l.foldl countName m)[([] : Text)]? = m[([] : Text)]? := by
  induction l generalizing m with
  | nil => rfl
  | cons a l ih =>
    rw [List.foldl_cons, ih, countName]
    split_ifs with hempty
    · rfl
    · rw [OrdMap.getElem?_alter, if_neg fun h => hempty (List.isEmpty_iff.mpr h)]

/-- **Every listed image names exited processes, and counts them all.** -/
theorem exitedImages_count (prev procs : OrdMap ℕ ProcRaw) :
    ∀ image ∈ exitedImages prev procs, image.name ≠ [] ∧
      image.count = (exited prev procs).countP fun a => a.2.name = image.name := by
  intro image himage
  have hsorted := List.mem_mergeSort.mp (List.mem_of_mem_take himage)
  obtain ⟨⟨name, count⟩, hmem, rfl⟩ := List.mem_map.mp hsorted
  have hget := Std.ExtTreeMap.mem_toList_iff_getElem?_eq_some.mp hmem
  rw [exitedByName_eq] at hget
  have hname : name ≠ [] := by
    rintro rfl
    rw [getElem?_foldl_countName_nil, Std.ExtTreeMap.getElem?_empty] at hget
    cases hget
  have hcount := getElem?_foldl_countName (exited prev procs) ∅ hname
  rw [hget, Std.ExtTreeMap.getElem?_empty, Option.getD_some, Option.getD_none,
    Nat.zero_add] at hcount
  exact ⟨hname, hcount⟩

end Taskman.CpuLoad
