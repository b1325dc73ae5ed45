import Taskman.Core.GroupLoad
import Taskman.LTS.Machine
import Taskman.Platform.Broker.Response
import Taskman.Platform.Sampler.Source
import Mathlib.Algebra.BigOperators.Ring.Finset
import Mathlib.Algebra.Order.Field.Basic

/-!
# The Disk active time column

A row's disk active time is, for each disk, the process's share of the disk's service time in the
drained window, scaled by the disk's active time.  A window too short to measure carries the shares
of the last measured one.

* `diskShares`, `diskActiveByDisk`, `setDiskActive` : from a window to a row;
* `diskSampleToWindow` : the window behind an answer of the service;
* `applyProcessDisk`, `carryProcessDisk` : one tick of the column;
* `applyProcessDisk_cases` : what a tick can do;
* `rows_within_header` : **no row, no group of rows and no sum over rows exceeds its disk**, after
  any run of measured and carried windows.
-/

namespace Taskman.Sampler

open Etw.Disk (DiskWindow PidDisk DiskTime)

/-- A window shorter than this is not measured. -/
abbrev MIN_WINDOW_MS : ℕ := 100

/-- The active time of each physical disk. -/
abbrev DiskActive := OrdMap ℕ ℚ

/-! ### From a window to a row -/

/-- One process's share (0..=1) of each disk's service time in a window. -/
def diskShares (disk : PidDisk) (window : DiskWindow) : List (ℕ × ℚ) :=
  disk.perDisk.filterMap fun time =>
    let total := window.diskTotal time.disk
    if 0 < total then some (time.disk, (time.serviceTime : ℚ) / total) else none

/-- The active time one process gets on each disk: its share of that disk's active time. -/
def diskActiveByDisk (shares : List (ℕ × ℚ)) (active : DiskActive) : List DiskActiveShare :=
  shares.filterMap fun x =>
    match active[x.1]? with
    | none => none
    | some a =>
      let pct := max 0 (min 100 (x.2 * a))
      if 0 < pct then some { disk := x.1, activePct := pct } else none

/-- Fill a process's active time from its shares: the busiest disk, like the header. -/
def setDiskActive (process : ProcessEntry) (shares : List (ℕ × ℚ)) (active : DiskActive) :
    ProcessEntry :=
  let byDisk := diskActiveByDisk shares active
  { process with
    diskActivePct := some ((byDisk.map DiskActiveShare.activePct).foldl max 0)
    diskActiveByDisk := byDisk }

/-- One process's values from the last window that was long enough to measure. -/
structure ProcDiskSample where
  startEpochS : Option ℤ
  /-- Shares, not percentages: a carried reading is rescaled by the current active time. -/
  shares : List (ℕ × ℚ)
  readBps : ℚ
  writeBps : ℚ

/-- A process's turn in a measured window: its row, and what is kept of it. -/
def measureRow (window : DiskWindow) (active : DiskActive) (process : ProcessEntry) :
    ProcessEntry × Option ProcDiskSample :=
  if process.synthetic then (process, none)
  else
    let disk := window.procs[process.pid]?.getD {}
    let shares := diskShares disk window
    -- a share of an unknown total is not a number
    let process := if active.isEmpty then process else setDiskActive process shares active
    let seconds : ℚ := window.sinceMs / 1000
    let process :=
      if 0 < seconds then
        { process with
          diskPhysReadBps := some (disk.readBytes / seconds)
          diskPhysWriteBps := some (disk.writeBytes / seconds) }
      else process
    (process,
      match process.diskActivePct, process.diskPhysReadBps, process.diskPhysWriteBps with
      | some _, some readBps, some writeBps =>
        some { startEpochS := process.startEpochS, shares, readBps, writeBps }
      | _, _, _ => none)

/-- A process's turn in a window too short to measure. -/
def carryRow (lastProcDisk : ℕ → Option ProcDiskSample) (active : DiskActive)
    (process : ProcessEntry) : ProcessEntry :=
  if process.synthetic then process
  else
    match lastProcDisk process.pid with
    | none => process
    | some last =>
      if last.startEpochS ≠ process.startEpochS then process
      else
        let process := if active.isEmpty then process else setDiskActive process last.shares active
        { process with
          diskPhysReadBps := some last.readBps
          diskPhysWriteBps := some last.writeBps }

/-- The rows with what was measured last. -/
def carryProcessDisk (lastProcDisk : ℕ → Option ProcDiskSample) (active : DiskActive)
    (processes : List ProcessEntry) : List ProcessEntry :=
  processes.map (carryRow lastProcDisk active)

/-! ### One tick -/

/-- A per-disk list as it comes off the wire. -/
def ofWire (times : List Broker.ProcessDiskTime) : List DiskTime :=
  times.map fun time => { disk := time.disk.toNat, serviceTime := time.serviceTime.toNat }

/-- What one entry of the service says about its process. -/
def ofEntry (entry : Broker.ProcessDiskEntry) : PidDisk where
  serviceTime := entry.serviceTime.toNat
  perDisk := ofWire entry.disks
  readBytes := entry.readBytes.toNat
  writeBytes := entry.writeBytes.toNat
  ops := entry.ops.toNat

/-- The answer of the service as a window. -/
def diskSampleToWindow (sample : Broker.ProcessDiskSample) : DiskWindow :=
  let attributed := sample.entries.foldl
    (fun acc entry => saturatingAdd acc entry.serviceTime.toNat) 0
  { -- the service reports the full denominator
    unattributedServiceTime := sample.totalServiceTime.toNat - attributed
    diskTotals := ofWire sample.diskTotals
    procs := sample.entries.foldl (fun m entry => m.insert entry.pid.toNat (ofEntry entry)) ∅
    sinceMs := sample.windowMs.toNat
    eventsSeen := sample.eventsSeen.toNat
    eventsDecoded := sample.eventsDecoded.toNat }

/-- The disk answers of the service. -/
def diskSamples : Samples Broker.ProcessDiskSample DiskWindow where
  active := Broker.ProcessDiskSample.active
  convert := diskSampleToWindow

/-- What is answered from outside during one tick of the column. -/
abbrev DiskOutside := Outside Broker.ProcessDiskSample DiskWindow

/-- Any sample decides for the service; an inactive one is asked for again. -/
def probeDiskSource (outside : DiskOutside) (n : ℕ) : Source × Option DiskWindow :=
  match outside.ask n with
  | .sample sample => (.broker 0, diskSamples.read sample)
  | .rejected => (.unavailable outside.now, none)
  | .unavailable =>
    (if outside.starts then .localTrace else .unavailable outside.now, none)

/-- What the column keeps between ticks. -/
structure DiskState where
  source : Source := .undecided
  /-- The last values a usable window produced, by pid. -/
  lastProcDisk : ℕ → Option ProcDiskSample := fun _ => none

/-- One drained window for this tick, `none` when the answer is genuinely unknown. -/
def diskWindow (s : DiskState) (outside : DiskOutside) : DiskState × Option DiskWindow :=
  let polled := s.source.poll diskSamples probeDiskSource outside
  -- nothing is carried over a time in which nobody wanted the column
  ({ source := polled.1
     lastProcDisk := if outside.demanded then s.lastProcDisk else fun _ => none },
    polled.2)

/-- The values kept after a measured window: those of the processes that still exist. -/
def keepMeasured (lastProcDisk : ℕ → Option ProcDiskSample)
    (rows : List (ProcessEntry × Option ProcDiskSample)) (live : List ℕ) :
    ℕ → Option ProcDiskSample :=
  let kept := rows.foldl (fun last row =>
    match row.2 with
    | none => last
    | some sample => Function.update last row.1.pid (some sample)) lastProcDisk
  fun pid => if pid ∈ live then kept pid else none

/-- The rows with their disk columns, and what is kept for the next tick. -/
def applyProcessDisk (s : DiskState) (outside : DiskOutside) (active : DiskActive)
    (processes : List ProcessEntry) : DiskState × List ProcessEntry :=
  match diskWindow s outside with
  | (s, none) => (s, processes)
  | (s, some window) =>
    if window.sinceMs < MIN_WINDOW_MS then (s, carryProcessDisk s.lastProcDisk active processes)
    else if !window.decoded then (s, processes)
    else
      let rows := processes.map (measureRow window active)
      ({ s with
          lastProcDisk := keepMeasured s.lastProcDisk rows (processes.map ProcessEntry.pid) },
        rows.map Prod.fst)

/-- One tick of the sampler, as far as the column goes. -/
structure DiskTick where
  outside : DiskOutside
  active : DiskActive
  /-- The rows of the tick, in the order of enumeration. -/
  processes : List ProcessEntry
  /-- The pids that were found dead and left out. -/
  evicted : List ℕ

/-- Forget processes that have ended. -/
def DiskState.evict (s : DiskState) (pids : List ℕ) : DiskState :=
  { s with lastProcDisk := fun pid => if pid ∈ pids then none else s.lastProcDisk pid }

/-- A tick: the ended processes are forgotten, and the rows get their columns. -/
def diskTick (s : DiskState) (t : DiskTick) : DiskState × List ProcessEntry :=
  applyProcessDisk (s.evict t.evicted) t.outside t.active t.processes

/-- The column after one tick. -/
def diskStep (s : DiskState) (t : DiskTick) : Option DiskState := some (diskTick s t).1

/-! ### Shares that fit -/

open BusiestShare (shareOf)

/-- The shares of each process. -/
abbrev Allotment := ℕ → Option (List (ℕ × ℚ))

/-- The share of one process of one disk. -/
def Allotment.on (shares : Allotment) (disk pid : ℕ) : ℚ :=
  (shares pid).elim 0 fun l => shareOf l disk

/-- Nothing negative, and no disk is given away more than once. -/
structure Allotment.Fits (shares : Allotment) : Prop where
  nonneg : ∀ pid l, shares pid = some l → ∀ x ∈ l, 0 ≤ x.2
  sum_le : ∀ pids : List ℕ, pids.Nodup → ∀ disk, (pids.map (shares.on disk)).sum ≤ 1

theorem Allotment.Fits.on_nonneg {shares : Allotment} (h : shares.Fits) (disk pid : ℕ) :
    0 ≤ shares.on disk pid := by
  unfold Allotment.on
  cases hl : shares pid with
  | none => exact le_refl 0
  | some l => exact BusiestShare.shareOf_nonneg (h.nonneg pid l hl) disk

/-- Giving to fewer processes still fits. -/
theorem Allotment.Fits.of_le {shares shares' : Allotment} (h : shares.Fits)
    (hsub : ∀ pid l, shares' pid = some l → shares pid = some l) : shares'.Fits := by
  refine ⟨fun pid l hl => h.nonneg pid l (hsub pid l hl), fun pids hpids disk => ?_⟩
  refine (List.sum_le_sum fun pid _ => ?_).trans (h.sum_le pids hpids disk)
  cases hl : shares' pid with
  | none =>
    rw [Allotment.on, hl]
    exact h.on_nonneg disk pid
  | some l => rw [Allotment.on, Allotment.on, hl, hsub pid l hl]

/-- The service time a list has for one disk. -/
def timeSum (times : List DiskTime) (disk : ℕ) : ℕ :=
  ((times.filter fun time => decide (time.disk = disk)).map DiskTime.serviceTime).sum

/-- The times of the processes do not exceed the window's totals. -/
def WindowSound (window : DiskWindow) : Prop :=
  ∀ disk, OrdMap.total (fun _ p => timeSum p.perDisk disk) window.procs ≤ window.diskTotal disk

/-- What a measured window gives to each process. -/
def windowShares (window : DiskWindow) : Allotment := fun pid =>
  some (diskShares (window.procs[pid]?.getD {}) window)

theorem shareOf_diskShares (disk : PidDisk) (window : DiskWindow) (d : ℕ) :
    shareOf (diskShares disk window) d =
      if 0 < window.diskTotal d then (timeSum disk.perDisk d : ℚ) / window.diskTotal d else 0 := by
  unfold diskShares timeSum
  induction disk.perDisk with
  | nil => simp
  | cons time times ih =>
    by_cases htotal : 0 < window.diskTotal time.disk
    · simp only [List.filterMap_cons, htotal, if_true]
      rw [BusiestShare.shareOf_cons, ih]
      by_cases hdisk : time.disk = d
      · subst hdisk
        simp only [htotal, if_true, decide_true, List.filter_cons_of_pos, List.map_cons,
          List.sum_cons, Nat.cast_add, add_div]
      · simp [hdisk]
    · simp only [List.filterMap_cons, htotal, if_false]
      rw [ih]
      by_cases hdisk : time.disk = d
      · subst hdisk
        simp [htotal]
      · simp [hdisk]

/-- **A sound window gives no disk away more than once.** -/
theorem fits_windowShares {window : DiskWindow} (h : WindowSound window) :
    (windowShares window).Fits where
  nonneg pid l hl x hx := by
    obtain rfl := Option.some.inj hl
    obtain ⟨time, -, htime⟩ := List.mem_filterMap.mp hx
    obtain ⟨-, htime⟩ := Option.ite_none_right_eq_some.mp htime
    rw [← Option.some.inj htime]
    exact div_nonneg (Nat.cast_nonneg _) (Nat.cast_nonneg _)
  sum_le pids hpids d := by
    have hon : (windowShares window).on d = fun pid =>
        if 0 < window.diskTotal d then
          ((window.procs[pid]?.elim 0 fun p => timeSum p.perDisk d : ℕ) : ℚ) / window.diskTotal d
        else 0 := by
      funext pid
      refine (shareOf_diskShares _ window d).trans ?_
      cases window.procs[pid]? with
      | none => rfl
      | some p => rfl
    rw [hon]
    by_cases htotal : 0 < window.diskTotal d
    · have hpos : (0 : ℚ) < window.diskTotal d := by exact_mod_cast htotal
      have hsum := OrdMap.sum_map_le_total (fun _ p => timeSum p.perDisk d) hpids window.procs
      have hcast : (pids.map fun pid =>
          ((window.procs[pid]?.elim 0 fun p => timeSum p.perDisk d : ℕ) : ℚ)).sum =
          ((pids.map fun pid =>
            window.procs[pid]?.elim 0 fun p => timeSum p.perDisk d).sum : ℕ) := by
        rw [Nat.cast_list_sum, List.map_map]
        rfl
      simp only [htotal, if_true, div_eq_mul_inv]
      rw [List.sum_map_mul_right, ← div_eq_mul_inv, div_le_one hpos, hcast]
      exact_mod_cast hsum.trans (h d)
    · simp [htotal]

/-- **The window behind an answer of the service is sound** when the times of its entries do not
exceed the totals it reports; of two entries for one process the later counts. -/
theorem windowSound_diskSampleToWindow {sample : Broker.ProcessDiskSample}
    (h : ∀ disk, (sample.entries.map fun entry => timeSum (ofWire entry.disks) disk).sum ≤
      Etw.Disk.timeOf (ofWire sample.diskTotals) disk) :
    WindowSound (diskSampleToWindow sample) := by
  intro disk
  refine (OrdMap.total_foldl_insert_le (fun _ p => timeSum (PidDisk.perDisk p) disk)
    (fun entry : Broker.ProcessDiskEntry => entry.pid.toNat) ofEntry sample.entries ∅).trans ?_
  rw [OrdMap.total_empty, Nat.zero_add]
  exact h disk

/-! ### Rows that show their shares -/

/-- The active time a row shows on one disk. -/
def onDisk (row : ProcessEntry) (disk : ℕ) : ℚ :=
  shareOf (row.diskActiveByDisk.map fun share => (share.disk, share.activePct)) disk

/-- A row without a reading. -/
def Unread (row : ProcessEntry) : Prop := row.diskActivePct = none ∧ row.diskActiveByDisk = []

/-- A row that shows some shares of the disks' active times. -/
def Shows (active : DiskActive) (shares : List (ℕ × ℚ)) (row : ProcessEntry) : Prop :=
  row.diskActivePct =
      some (((diskActiveByDisk shares active).map DiskActiveShare.activePct).foldl max 0) ∧
    row.diskActiveByDisk = diskActiveByDisk shares active

theorem shows_setDiskActive (process : ProcessEntry) (shares : List (ℕ × ℚ)) (active : DiskActive) :
    Shows active shares (setDiskActive process shares active) := ⟨rfl, rfl⟩

/-- Active times are percentages. -/
def ActiveTimes (active : DiskActive) : Prop :=
  ∀ (disk : ℕ) (a : ℚ), active[disk]? = some a → 0 ≤ a ∧ a ≤ 100

/-- The busiest disk's active time: the header of the column. -/
def busiestDisk (active : DiskActive) : ℚ := (active.toList.map Prod.snd).foldl max 0

theorem le_busiestDisk {active : DiskActive} {disk : ℕ} {a : ℚ} (h : active[disk]? = some a) :
    a ≤ busiestDisk active := by
  have hle := (Ranges.foldl_max_le_iff (l := active.toList.map Prod.snd)).mp
    (le_refl (busiestDisk active))
  exact hle.2 a (List.mem_map_of_mem (f := Prod.snd)
    (Std.ExtTreeMap.mem_toList_iff_getElem?_eq_some.mpr h))

theorem busiestDisk_nonneg (active : DiskActive) : 0 ≤ busiestDisk active :=
  (Ranges.foldl_max_le_iff.mp (le_refl (busiestDisk active))).1

/-- A share shown is positive, of a disk with an active time, and no more than the share of it. -/
theorem mem_diskActiveByDisk {shares : List (ℕ × ℚ)} {active : DiskActive} {share : DiskActiveShare}
    (h : share ∈ diskActiveByDisk shares active) :
    0 < share.activePct ∧ ∃ a, active[share.disk]? = some a := by
  obtain ⟨x, -, hx⟩ := List.mem_filterMap.mp h
  cases ha : active[x.1]? with
  | none =>
    rw [ha] at hx
    cases hx
  | some a =>
    rw [ha] at hx
    obtain ⟨hpos, hx⟩ := Option.ite_none_right_eq_some.mp hx
    rw [← Option.some.inj hx]
    exact ⟨hpos, a, ha⟩

theorem shareOf_diskActiveByDisk_none {shares : List (ℕ × ℚ)} {active : DiskActive} {disk : ℕ}
    (h : active[disk]? = none) :
    shareOf ((diskActiveByDisk shares active).map fun share => (share.disk, share.activePct))
      disk = 0 := by
  refine List.sum_eq_zero fun v hv => ?_
  obtain ⟨x, hx, rfl⟩ := List.mem_map.mp hv
  obtain ⟨hx, heq⟩ := List.mem_filter.mp hx
  obtain ⟨share, hshare, rfl⟩ := List.mem_map.mp hx
  obtain ⟨-, a, ha⟩ := mem_diskActiveByDisk hshare
  have hdisk : share.disk = disk := of_decide_eq_true heq
  rw [hdisk, h] at ha
  cases ha

/-- **What is shown on a disk is at most the share of its active time.** -/
theorem shareOf_diskActiveByDisk_le {shares : List (ℕ × ℚ)} (hshares : ∀ x ∈ shares, 0 ≤ x.2)
    {active : DiskActive} {disk : ℕ} {a : ℚ} (ha : active[disk]? = some a) (hnonneg : 0 ≤ a) :
    shareOf ((diskActiveByDisk shares active).map fun share => (share.disk, share.activePct))
      disk ≤ shareOf shares disk * a := by
  induction shares with
  | nil => simp [diskActiveByDisk]
  | cons x shares ih =>
    have ih' := ih fun y hy => hshares y (List.mem_cons_of_mem _ hy)
    have hx : 0 ≤ x.2 := hshares x List.mem_cons_self
    have hscaled : 0 ≤ (if x.1 = disk then x.2 else 0) * a := by
      split
      · exact mul_nonneg hx hnonneg
      · rw [zero_mul]
    rw [BusiestShare.shareOf_cons, add_mul, diskActiveByDisk, List.filterMap_cons]
    split
    · exact le_add_of_nonneg_of_le hscaled ih'
    · rename_i share hshare
      cases hactive : active[x.1]? with
      | none =>
        rw [hactive] at hshare
        cases hshare
      | some b =>
        rw [hactive] at hshare
        obtain ⟨hpos, hshare⟩ := Option.ite_none_right_eq_some.mp hshare
        obtain rfl := Option.some.inj hshare
        rw [List.map_cons, BusiestShare.shareOf_cons]
        refine add_le_add ?_ ih'
        by_cases hdisk : x.1 = disk
        · rw [hdisk, ha] at hactive
          obtain rfl := Option.some.inj hactive
          simp only [hdisk, if_true]
          exact max_le (mul_nonneg hx hnonneg) (min_le_right _ _)
        · simp [hdisk]

/-- No row, no group of rows and no sum over rows exceeds its disk. -/
structure RowsWithin (active : DiskActive) (rows : List ProcessEntry) : Prop where
  /-- The shares of a disk add up to at most its active time; a disk without one is not shown. -/
  sum_le : ∀ disk : ℕ, (rows.map fun row => onDisk row disk).sum ≤ active[disk]?.getD 0
  /-- A row's reading is the largest of its shares. -/
  busiest : ∀ row ∈ rows, ∀ v, row.diskActivePct = some v →
    v = (row.diskActiveByDisk.map DiskActiveShare.activePct).foldl max 0
  row_le : ∀ row ∈ rows, ∀ v, row.diskActivePct = some v → v ≤ busiestDisk active
  group_le : ∀ members : List ProcessEntry, members.Subperm rows →
    ∀ (iteration : HashOrder (ℕ × ℚ)) (v : ℚ),
      (DiskGroupLoad members).pct iteration = some v → v ≤ busiestDisk active

/-- A row without a reading, or with the shares that are given to its process. -/
def FilledFrom (active : DiskActive) (shares : Allotment) (row : ProcessEntry) : Prop :=
  Unread row ∨ ∃ l, shares row.pid = some l ∧ Shows active l row

variable {active : DiskActive} {shares : Allotment} {rows : List ProcessEntry}

theorem FilledFrom.share_nonneg {row : ProcessEntry} (h : FilledFrom active shares row)
    {share : DiskActiveShare} (hshare : share ∈ row.diskActiveByDisk) : 0 ≤ share.activePct := by
  rcases h with hunread | ⟨l, -, hshows⟩
  · rw [hunread.2] at hshare
    cases hshare
  · rw [hshows.2] at hshare
    exact (mem_diskActiveByDisk hshare).1.le

theorem FilledFrom.onDisk_nonneg {row : ProcessEntry} (h : FilledFrom active shares row)
    (disk : ℕ) : 0 ≤ onDisk row disk := by
  refine BusiestShare.shareOf_nonneg (fun x hx => ?_) disk
  obtain ⟨share, hshare, rfl⟩ := List.mem_map.mp hx
  exact h.share_nonneg hshare

theorem FilledFrom.onDisk_le (hfits : shares.Fits) (hactive : ActiveTimes active)
    {row : ProcessEntry} (h : FilledFrom active shares row) (disk : ℕ) :
    onDisk row disk ≤ shares.on disk row.pid * active[disk]?.getD 0 := by
  rcases h with hunread | ⟨l, hl, hshows⟩
  · rw [onDisk, hunread.2]
    refine mul_nonneg (hfits.on_nonneg disk row.pid) ?_
    cases ha : active[disk]? with
    | none => exact le_refl 0
    | some a => exact (hactive disk a ha).1
  · rw [onDisk, hshows.2, Allotment.on, hl, Option.elim_some]
    cases ha : active[disk]? with
    | none =>
      rw [shareOf_diskActiveByDisk_none ha]
      simp
    | some a => exact shareOf_diskActiveByDisk_le (hfits.nonneg _ l hl) ha (hactive disk a ha).1

/-- **Shares that fit keep the rows within the header.** -/
theorem rowsWithin_of_filled (hfits : shares.Fits) (hactive : ActiveTimes active)
    (hdistinct : (rows.map ProcessEntry.pid).Nodup)
    (hfilled : ∀ row ∈ rows, FilledFrom active shares row) : RowsWithin active rows := by
  have hactive_nonneg : ∀ disk : ℕ, 0 ≤ active[disk]?.getD 0 := by
    intro disk
    cases ha : active[disk]? with
    | none => exact le_refl 0
    | some a => exact (hactive disk a ha).1
  have hheader : ∀ disk : ℕ, active[disk]?.getD 0 ≤ busiestDisk active := by
    intro disk
    cases ha : active[disk]? with
    | none => exact busiestDisk_nonneg active
    | some a => exact le_busiestDisk ha
  have hsum : ∀ disk : ℕ, (rows.map fun row => onDisk row disk).sum ≤ active[disk]?.getD 0 := by
    intro disk
    have hgiven := hfits.sum_le _ hdistinct disk
    calc (rows.map fun row => onDisk row disk).sum
        ≤ (rows.map fun row => shares.on disk row.pid * active[disk]?.getD 0).sum :=
          List.sum_le_sum fun row hrow => (hfilled row hrow).onDisk_le hfits hactive disk
      _ = ((rows.map ProcessEntry.pid).map (shares.on disk)).sum * active[disk]?.getD 0 := by
          rw [List.sum_map_mul_right, List.map_map]
          rfl
      _ ≤ active[disk]?.getD 0 := mul_le_of_le_one_left (hactive_nonneg disk) hgiven
  have hbusiest : ∀ row ∈ rows, ∀ v, row.diskActivePct = some v →
      v = (row.diskActiveByDisk.map DiskActiveShare.activePct).foldl max 0 := by
    intro row hrow v hv
    rcases hfilled row hrow with hunread | ⟨l, -, hshows⟩
    · rw [hunread.1] at hv
      cases hv
    · rw [hshows.1] at hv
      rw [hshows.2, Option.some.inj hv]
  refine ⟨hsum, hbusiest, ?_, ?_⟩
  · intro row hrow v hv
    rw [hbusiest row hrow v hv, Ranges.foldl_max_le_iff]
    refine ⟨busiestDisk_nonneg active, fun x hx => ?_⟩
    obtain ⟨share, hshare, rfl⟩ := List.mem_map.mp hx
    -- a share is part of what its row, and all rows, show on the disk
    have hone : share.activePct ≤ onDisk row share.disk := by
      refine BusiestShare.le_shareOf (x := (share.disk, share.activePct)) (fun y hy => ?_)
        (List.mem_map_of_mem hshare)
      obtain ⟨other, hother, rfl⟩ := List.mem_map.mp hy
      exact (hfilled row hrow).share_nonneg hother
    have hall : onDisk row share.disk ≤ (rows.map fun row => onDisk row share.disk).sum := by
      refine List.single_le_sum ?_ _ (List.mem_map_of_mem hrow)
      intro y hy
      obtain ⟨other, hother, rfl⟩ := List.mem_map.mp hy
      exact (hfilled other hother).onDisk_nonneg share.disk
    exact hone.trans (hall.trans ((hsum share.disk).trans (hheader share.disk)))
  · intro members hmembers iteration v hv
    refine BusiestShare.pct_le_of_subperm hmembers ?_ ?_ (busiestDisk_nonneg active)
      (fun disk => (hsum disk).trans (hheader disk)) iteration hv
    · intro row hrow x hx
      obtain ⟨share, hshare, rfl⟩ := List.mem_map.mp hx
      exact (hfilled row hrow).share_nonneg hshare
    · intro row hrow
      refine BusiestShare.memberPlain_eq_zero fun hempty => ?_
      cases hv : row.diskActivePct with
      | none => rfl
      | some v =>
        rw [hbusiest row hrow v hv, List.map_eq_nil_iff.mp hempty]
        rfl

/-! ### What a tick can do -/

/-- The window of a tick, `none` when the answer is unknown. -/
def DiskState.answer (s : DiskState) (outside : DiskOutside) : Option DiskWindow :=
  (diskWindow s outside).2

/-- What is still kept when the window has been asked for. -/
def DiskState.kept (s : DiskState) (outside : DiskOutside) : ℕ → Option ProcDiskSample :=
  if outside.demanded then s.lastProcDisk else fun _ => none

section Answered

variable {s : DiskState} {outside : DiskOutside} {window : DiskWindow} {active : DiskActive}
  {processes : List ProcessEntry}

theorem applyProcessDisk_of_answer (h : s.answer outside = some window) :
    applyProcessDisk s outside active processes =
      if window.sinceMs < MIN_WINDOW_MS then
        (⟨(diskWindow s outside).1.source, s.kept outside⟩,
          carryProcessDisk (s.kept outside) active processes)
      else if !window.decoded then
        (⟨(diskWindow s outside).1.source, s.kept outside⟩, processes)
      else
        (⟨(diskWindow s outside).1.source,
            keepMeasured (s.kept outside) (processes.map (measureRow window active))
              (processes.map ProcessEntry.pid)⟩,
          (processes.map (measureRow window active)).map Prod.fst) := by
  have hwindow : diskWindow s outside =
      (⟨(diskWindow s outside).1.source, s.kept outside⟩, some window) := Prod.ext rfl h
  rw [applyProcessDisk, hwindow]

/-- A window too short to measure carries. -/
theorem applyProcessDisk_of_short (h : s.answer outside = some window)
    (hshort : window.sinceMs < MIN_WINDOW_MS) :
    applyProcessDisk s outside active processes =
      (⟨(diskWindow s outside).1.source, s.kept outside⟩,
        carryProcessDisk (s.kept outside) active processes) := by
  rw [applyProcessDisk_of_answer h, if_pos hshort]

/-- Any other window with a record that could be read is measured. -/
theorem applyProcessDisk_of_measured (h : s.answer outside = some window)
    (hlong : MIN_WINDOW_MS ≤ window.sinceMs) (hdecoded : window.decoded = true) :
    applyProcessDisk s outside active processes =
      (⟨(diskWindow s outside).1.source,
          keepMeasured (s.kept outside) (processes.map (measureRow window active))
            (processes.map ProcessEntry.pid)⟩,
        (processes.map (measureRow window active)).map Prod.fst) := by
  rw [applyProcessDisk_of_answer h, if_neg (Nat.not_lt.mpr hlong), hdecoded]
  rfl

end Answered

/-- **What a tick can do**: nothing without an answer or without a record that could be read, carry
the kept values over a short window, or measure. -/
theorem applyProcessDisk_cases (s : DiskState) (outside : DiskOutside) (active : DiskActive)
    (processes : List ProcessEntry) :
    ∃ source,
      (s.answer outside = none ∧
        applyProcessDisk s outside active processes = (⟨source, s.kept outside⟩, processes)) ∨
      ∃ window, s.answer outside = some window ∧
        (window.sinceMs < MIN_WINDOW_MS ∧
            applyProcessDisk s outside active processes =
              (⟨source, s.kept outside⟩, carryProcessDisk (s.kept outside) active processes) ∨
          MIN_WINDOW_MS ≤ window.sinceMs ∧ window.decoded = false ∧
            applyProcessDisk s outside active processes = (⟨source, s.kept outside⟩, processes) ∨
          MIN_WINDOW_MS ≤ window.sinceMs ∧ window.decoded = true ∧
            applyProcessDisk s outside active processes =
              (⟨source, keepMeasured (s.kept outside) (processes.map (measureRow window active))
                (processes.map ProcessEntry.pid)⟩,
                (processes.map (measureRow window active)).map Prod.fst)) := by
  refine ⟨(diskWindow s outside).1.source, ?_⟩
  cases hanswer : s.answer outside with
  | none =>
    refine Or.inl ⟨rfl, ?_⟩
    have hwindow : diskWindow s outside =
        (⟨(diskWindow s outside).1.source, s.kept outside⟩, none) := Prod.ext rfl hanswer
    rw [applyProcessDisk, hwindow]
  | some window =>
    refine Or.inr ⟨window, rfl, ?_⟩
    by_cases hshort : window.sinceMs < MIN_WINDOW_MS
    · exact Or.inl ⟨hshort, applyProcessDisk_of_short hanswer hshort⟩
    · have hlong : MIN_WINDOW_MS ≤ window.sinceMs := Nat.le_of_not_lt hshort
      cases hdecoded : window.decoded with
      | false =>
        refine Or.inr (Or.inl ⟨hlong, rfl, ?_⟩)
        rw [applyProcessDisk_of_answer hanswer, if_neg hshort, hdecoded]
        rfl
      | true =>
        exact Or.inr (Or.inr ⟨hlong, rfl, applyProcessDisk_of_measured hanswer hlong hdecoded⟩)

/-- A row as the enumeration makes it: no pseudo-row, and nothing measured yet. -/
structure Enumerated (process : ProcessEntry) : Prop where
  real : process.synthetic = false
  unread : Unread process

/-- What a measured window makes of a row. -/
theorem measureRow_spec {window : DiskWindow} (hlong : MIN_WINDOW_MS ≤ window.sinceMs)
    (active : DiskActive) {process : ProcessEntry} (h : Enumerated process) :
    (measureRow window active process).1.pid = process.pid ∧
    (active.isEmpty = true → Unread (measureRow window active process).1 ∧
      (measureRow window active process).2 = none) ∧
    (active.isEmpty = false →
      Shows active (diskShares (window.procs[process.pid]?.getD {}) window)
        (measureRow window active process).1 ∧
      ∃ readBps writeBps, (measureRow window active process).2 =
        some ⟨process.startEpochS, diskShares (window.procs[process.pid]?.getD {}) window, readBps,
          writeBps⟩) := by
  have hseconds : (0 : ℚ) < window.sinceMs / 1000 := by
    have hpos : (0 : ℚ) < window.sinceMs := by
      exact_mod_cast Nat.lt_of_lt_of_le (by decide : 0 < MIN_WINDOW_MS) hlong
    positivity
  simp only [measureRow, h.real, Bool.false_eq_true, if_false, hseconds, if_true]
  refine ⟨?_, ?_, ?_⟩
  · split <;> rfl
  · intro hempty
    simp only [hempty, if_true, h.unread.1]
    exact ⟨⟨rfl, h.unread.2⟩, trivial⟩
  · intro hempty
    simp only [hempty, Bool.false_eq_true, if_false]
    exact ⟨⟨rfl, rfl⟩, _, _, rfl⟩

/-- What is kept after a measured window is old, or was kept of a row. -/
theorem keepMeasured_eq_some {last : ℕ → Option ProcDiskSample}
    {rows : List (ProcessEntry × Option ProcDiskSample)} {live : List ℕ} {pid : ℕ}
    {sample : ProcDiskSample} (h : keepMeasured last rows live pid = some sample) :
    pid ∈ live ∧ ((last pid = some sample ∧ ∀ row ∈ rows, row.1.pid = pid → row.2 = none) ∨
      ∃ row ∈ rows, row.1.pid = pid ∧ row.2 = some sample) := by
  have hfold : ∀ (rows : List (ProcessEntry × Option ProcDiskSample))
      (last : ℕ → Option ProcDiskSample), (rows.foldl (fun last row =>
        match row.2 with
        | none => last
        | some sample => Function.update last row.1.pid (some sample)) last) pid = some sample →
      (last pid = some sample ∧ ∀ row ∈ rows, row.1.pid = pid → row.2 = none) ∨
        ∃ row ∈ rows, row.1.pid = pid ∧ row.2 = some sample := by
    intro rows
    induction rows with
    | nil =>
      intro last hlast
      exact Or.inl ⟨hlast, by simp⟩
    | cons row rows ih =>
      intro last hlast
      rw [List.foldl_cons] at hlast
      rcases ih _ hlast with ⟨hold, hnone⟩ | ⟨row', hrow', heq⟩
      · cases hkept : row.2 with
        | none =>
          rw [hkept] at hold
          refine Or.inl ⟨hold, ?_⟩
          intro row' hrow' hpid
          rcases List.mem_cons.mp hrow' with rfl | hrow'
          · exact hkept
          · exact hnone row' hrow' hpid
        | some kept =>
          rw [hkept] at hold
          dsimp only at hold
          by_cases hpid : row.1.pid = pid
          · subst hpid
            rw [Function.update_self] at hold
            exact Or.inr ⟨row, List.mem_cons_self, rfl, hkept.trans hold⟩
          · rw [Function.update_of_ne (Ne.symm hpid)] at hold
            refine Or.inl ⟨hold, ?_⟩
            intro row' hrow' hpid'
            rcases List.mem_cons.mp hrow' with rfl | hrow'
            · exact absurd hpid' hpid
            · exact hnone row' hrow' hpid'
      · exact Or.inr ⟨row', List.mem_cons_of_mem _ hrow', heq⟩
  unfold keepMeasured at h
  obtain ⟨hlive, h⟩ := Option.ite_none_right_eq_some.mp h
  exact ⟨hlive, hfold rows last h⟩

/-- What a living process's turn in a measured window gives is kept. -/
theorem keepMeasured_of_mem {last : ℕ → Option ProcDiskSample}
    {rows : List (ProcessEntry × Option ProcDiskSample)} {live : List ℕ}
    (hdistinct : (rows.map fun row => row.1.pid).Nodup)
    {row : ProcessEntry × Option ProcDiskSample} (hrow : row ∈ rows) (hlive : row.1.pid ∈ live)
    {sample : ProcDiskSample} (hsample : row.2 = some sample) :
    keepMeasured last rows live row.1.pid = some sample := by
  unfold keepMeasured
  rw [if_pos hlive]
  induction rows generalizing last with
  | nil => cases hrow
  | cons first rows ih =>
    obtain ⟨hnew, hdistinct'⟩ := List.nodup_cons.mp hdistinct
    rw [List.foldl_cons]
    rcases List.mem_cons.mp hrow with rfl | hrow'
    · -- no later row has its pid
      have hothers : ∀ (rows : List (ProcessEntry × Option ProcDiskSample))
          (last : ℕ → Option ProcDiskSample), (∀ other ∈ rows, other.1.pid ≠ row.1.pid) →
          (rows.foldl (fun last row =>
            match row.2 with
            | none => last
            | some sample => Function.update last row.1.pid (some sample)) last) row.1.pid =
            last row.1.pid := by
        intro rows
        induction rows with
        | nil => intro last _; rfl
        | cons other rows ih =>
          intro last hne
          rw [List.foldl_cons, ih _ fun x hx => hne x (List.mem_cons_of_mem _ hx)]
          cases other.2 with
          | none => rfl
          | some kept => exact Function.update_of_ne (Ne.symm (hne other List.mem_cons_self)) _ _
      have hlater : ∀ other ∈ rows, other.1.pid ≠ row.1.pid := fun other hother heq =>
        hnew (List.mem_map.mpr ⟨other, hother, heq⟩)
      rw [hothers rows _ hlater, hsample]
      exact Function.update_self _ _ _
    · exact ih hdistinct' hrow'

/-! ### Runs -/

/-- The shares that are kept for a window too short to measure. -/
def DiskState.allotment (s : DiskState) : Allotment := fun pid =>
  (s.lastProcDisk pid).map ProcDiskSample.shares

/-- A tick whose rows are as the enumeration makes them, with percentages for the disks and a
window, if there is one, in which the processes' times do not exceed the disks'. -/
structure DiskTick.Admissible (t : DiskTick) : Prop where
  distinct : (t.processes.map ProcessEntry.pid).Nodup
  enumerated : ∀ process ∈ t.processes, Enumerated process
  active : ActiveTimes t.active
  sound : ∀ window, t.outside.Reports diskSamples window → WindowSound window

theorem reports_of_answer {s : DiskState} {outside : DiskOutside} {window : DiskWindow}
    (h : s.answer outside = some window) :
    outside.demanded = true ∧ outside.Reports diskSamples window := by
  refine Source.reports_of_poll (fun n answer hprobe => ?_) h
  unfold probeDiskSource at hprobe
  cases hask : outside.ask n with
  | sample sample =>
    rw [hask] at hprobe
    exact Samples.reports_of_read hask hprobe
  | rejected =>
    rw [hask] at hprobe
    cases hprobe
  | unavailable =>
    rw [hask] at hprobe
    cases hprobe

/-- A carried row shows what is kept for its process. -/
theorem filledFrom_carryRow {last : ℕ → Option ProcDiskSample} (active : DiskActive)
    {process : ProcessEntry} (h : Enumerated process) :
    (carryRow last active process).pid = process.pid ∧
      FilledFrom active (fun pid => (last pid).map ProcDiskSample.shares)
        (carryRow last active process) := by
  unfold carryRow
  rw [h.real, if_neg Bool.false_ne_true]
  cases hlast : last process.pid with
  | none => exact ⟨rfl, Or.inl h.unread⟩
  | some sample =>
    dsimp only
    split
    · exact ⟨rfl, Or.inl h.unread⟩
    · by_cases hempty : active.isEmpty = true
      · rw [if_pos hempty]
        exact ⟨rfl, Or.inl h.unread⟩
      · rw [if_neg hempty]
        refine ⟨rfl, Or.inr ⟨sample.shares, ?_, rfl, rfl⟩⟩
        change (last process.pid).map ProcDiskSample.shares = _
        rw [hlast, Option.map_some]

theorem fits_kept {s : DiskState} (h : s.allotment.Fits) (pids : List ℕ) (outside : DiskOutside) :
    Allotment.Fits fun pid => ((s.evict pids).kept outside pid).map ProcDiskSample.shares := by
  refine h.of_le fun pid l hl => ?_
  unfold DiskState.kept DiskState.evict at hl
  split at hl
  · dsimp only at hl
    split at hl
    · cases hl
    · exact hl
  · cases hl

/-- **A tick keeps the rows within the header**, and keeps shares that fit. -/
theorem diskTick_within {s : DiskState} (hfits : s.allotment.Fits) {t : DiskTick}
    (ht : t.Admissible) :
    (diskTick s t).1.allotment.Fits ∧ RowsWithin t.active (diskTick s t).2 := by
  have hkept := fits_kept hfits t.evicted t.outside
  have hunread : RowsWithin t.active t.processes :=
    rowsWithin_of_filled hkept ht.active ht.distinct fun process hprocess =>
      Or.inl (ht.enumerated process hprocess).unread
  obtain ⟨source, ⟨-, htick⟩ | ⟨window, hanswer, ⟨-, htick⟩ | ⟨-, -, htick⟩ | ⟨hlong, -, htick⟩⟩⟩ :=
    applyProcessDisk_cases (s.evict t.evicted) t.outside t.active t.processes
  · rw [diskTick, htick]
    exact ⟨hkept, hunread⟩
  · rw [diskTick, htick]
    refine ⟨hkept, ?_⟩
    have hpids : ((carryProcessDisk ((s.evict t.evicted).kept t.outside) t.active t.processes).map
        ProcessEntry.pid) = t.processes.map ProcessEntry.pid := by
      rw [carryProcessDisk, List.map_map]
      exact List.map_congr_left fun process hprocess =>
        (filledFrom_carryRow t.active (ht.enumerated process hprocess)).1
    refine rowsWithin_of_filled hkept ht.active (hpids ▸ ht.distinct) fun row hrow => ?_
    obtain ⟨process, hprocess, rfl⟩ := List.mem_map.mp hrow
    exact (filledFrom_carryRow t.active (ht.enumerated process hprocess)).2
  · rw [diskTick, htick]
    exact ⟨hkept, hunread⟩
  · rw [diskTick, htick]
    -- the shares of one window fit by themselves, whatever was kept before
    have hwindow := fits_windowShares (ht.sound window (reports_of_answer hanswer).2)
    have hrow := fun process hprocess =>
      measureRow_spec hlong t.active (ht.enumerated process hprocess)
    have hpids : (((t.processes.map (measureRow window t.active)).map Prod.fst).map
        ProcessEntry.pid) = t.processes.map ProcessEntry.pid := by
      rw [List.map_map, List.map_map]
      exact List.map_congr_left fun process hprocess => (hrow process hprocess).1
    cases hempty : t.active.isEmpty with
    | true =>
      -- without an active time no row is measured, and only old shares can be kept
      refine ⟨hkept.of_le fun pid l hl => ?_, ?_⟩
      · obtain ⟨sample, hsample, rfl⟩ := Option.map_eq_some_iff.mp hl
        obtain ⟨-, ⟨hold, -⟩ | ⟨row, hmem, -, hsome⟩⟩ := keepMeasured_eq_some hsample
        · exact congrArg (Option.map ProcDiskSample.shares) hold
        · obtain ⟨process, hprocess, rfl⟩ := List.mem_map.mp hmem
          rw [((hrow process hprocess).2.1 hempty).2] at hsome
          cases hsome
      · refine rowsWithin_of_filled hkept ht.active (hpids ▸ ht.distinct) fun row hmem => ?_
        rw [List.map_map] at hmem
        obtain ⟨process, hprocess, rfl⟩ := List.mem_map.mp hmem
        exact Or.inl ((hrow process hprocess).2.1 hempty).1
    | false =>
      refine ⟨hwindow.of_le fun pid l hl => ?_, ?_⟩
      · obtain ⟨sample, hsample, rfl⟩ := Option.map_eq_some_iff.mp hl
        obtain ⟨hlive, ⟨-, hnone⟩ | ⟨row, hmem, hpid, hsome⟩⟩ := keepMeasured_eq_some hsample
        · -- every living process was measured, so nothing old is kept
          obtain ⟨process, hprocess, rfl⟩ := List.mem_map.mp hlive
          obtain ⟨-, readBps, writeBps, hsome⟩ := (hrow process hprocess).2.2 hempty
          have hnone' := hnone _ (List.mem_map_of_mem hprocess) (hrow process hprocess).1
          rw [hsome] at hnone'
          cases hnone'
        · obtain ⟨process, hprocess, rfl⟩ := List.mem_map.mp hmem
          obtain ⟨-, readBps, writeBps, hsome'⟩ := (hrow process hprocess).2.2 hempty
          rw [hsome'] at hsome
          rw [← Option.some.inj hsome, ← hpid, (hrow process hprocess).1]
          rfl
      · refine rowsWithin_of_filled hwindow ht.active (hpids ▸ ht.distinct) fun row hmem => ?_
        rw [List.map_map] at hmem
        obtain ⟨process, hprocess, rfl⟩ := List.mem_map.mp hmem
        refine Or.inr ⟨_, ?_, ((hrow process hprocess).2.2 hempty).1⟩
        change some (diskShares (window.procs[(measureRow window t.active process).1.pid]?.getD {})
          window) = _
        rw [(hrow process hprocess).1]

/-- What the rows of a tick show where the disks have active times: the shares of the window it
measured, which are then kept, or the kept ones of the same process over a window too short to
measure. -/
structure RowsShow (s : DiskState) (t : DiskTick) : Prop where
  measured : ∀ window, (s.evict t.evicted).answer t.outside = some window →
    MIN_WINDOW_MS ≤ window.sinceMs → window.decoded = true → t.active.isEmpty = false →
    List.Forall₂ (fun process row => row.pid = process.pid ∧
      Shows t.active (diskShares (window.procs[process.pid]?.getD {}) window) row)
      t.processes (diskTick s t).2
  kept : ∀ window, (s.evict t.evicted).answer t.outside = some window →
    MIN_WINDOW_MS ≤ window.sinceMs → window.decoded = true → t.active.isEmpty = false →
    ∀ process ∈ t.processes, ∃ readBps writeBps,
      (diskTick s t).1.lastProcDisk process.pid = some ⟨process.startEpochS,
        diskShares (window.procs[process.pid]?.getD {}) window, readBps, writeBps⟩
  carried : ∀ window, (s.evict t.evicted).answer t.outside = some window →
    window.sinceMs < MIN_WINDOW_MS → t.active.isEmpty = false →
    List.Forall₂ (fun process row => row.pid = process.pid ∧
      ∀ last, (s.evict t.evicted).kept t.outside process.pid = some last →
        last.startEpochS = process.startEpochS → Shows t.active last.shares row)
      t.processes (diskTick s t).2

section Shows

variable {s : DiskState} {t : DiskTick} {window : DiskWindow}

theorem shows_measured (ht : t.Admissible)
    (hanswer : (s.evict t.evicted).answer t.outside = some window)
    (hlong : MIN_WINDOW_MS ≤ window.sinceMs) (hdecoded : window.decoded = true)
    (hactive : t.active.isEmpty = false) :
    List.Forall₂ (fun process row => row.pid = process.pid ∧
      Shows t.active (diskShares (window.procs[process.pid]?.getD {}) window) row)
      t.processes (diskTick s t).2 := by
  rw [diskTick, applyProcessDisk_of_measured hanswer hlong hdecoded, List.map_map]
  refine List.forall₂_map_right_iff.mpr (List.forall₂_same.mpr fun process hprocess => ?_)
  obtain ⟨hpid, -, hmeasured⟩ := measureRow_spec hlong t.active (ht.enumerated process hprocess)
  exact ⟨hpid, (hmeasured hactive).1⟩

theorem keeps_measured (ht : t.Admissible)
    (hanswer : (s.evict t.evicted).answer t.outside = some window)
    (hlong : MIN_WINDOW_MS ≤ window.sinceMs) (hdecoded : window.decoded = true)
    (hactive : t.active.isEmpty = false) {process : ProcessEntry}
    (hprocess : process ∈ t.processes) :
    ∃ readBps writeBps, (diskTick s t).1.lastProcDisk process.pid = some ⟨process.startEpochS,
      diskShares (window.procs[process.pid]?.getD {}) window, readBps, writeBps⟩ := by
  have hpid := fun p hp => (measureRow_spec hlong t.active (ht.enumerated p hp)).1
  obtain ⟨-, readBps, writeBps, hsample⟩ :=
    (measureRow_spec hlong t.active (ht.enumerated process hprocess)).2.2 hactive
  have hpids : ((t.processes.map (measureRow window t.active)).map fun row => row.1.pid) =
      t.processes.map ProcessEntry.pid := by
    rw [List.map_map]
    exact List.map_congr_left hpid
  refine ⟨readBps, writeBps, ?_⟩
  rw [diskTick, applyProcessDisk_of_measured hanswer hlong hdecoded, ← hsample,
    ← hpid process hprocess]
  exact hsample ▸ keepMeasured_of_mem (hpids ▸ ht.distinct) (List.mem_map_of_mem hprocess)
    (hpid process hprocess ▸ List.mem_map_of_mem hprocess) hsample

theorem shows_carried (ht : t.Admissible)
    (hanswer : (s.evict t.evicted).answer t.outside = some window)
    (hshort : window.sinceMs < MIN_WINDOW_MS) (hactive : t.active.isEmpty = false) :
    List.Forall₂ (fun process row => row.pid = process.pid ∧
      ∀ last, (s.evict t.evicted).kept t.outside process.pid = some last →
        last.startEpochS = process.startEpochS → Shows t.active last.shares row)
      t.processes (diskTick s t).2 := by
  rw [diskTick, applyProcessDisk_of_short hanswer hshort]
  refine List.forall₂_map_right_iff.mpr (List.forall₂_same.mpr fun process hprocess => ?_)
  refine ⟨(filledFrom_carryRow t.active (ht.enumerated process hprocess)).1,
    fun last hlast hstart => ?_⟩
  unfold carryRow
  rw [(ht.enumerated process hprocess).real, if_neg Bool.false_ne_true, hlast]
  simp only [ne_eq, hstart, not_true_eq_false, if_false, hactive, Bool.false_eq_true]
  exact ⟨rfl, rfl⟩

/-- **A tick shows the shares it measured, or the kept ones.** -/
theorem diskTick_shows (ht : t.Admissible) : RowsShow s t where
  measured _ := shows_measured ht
  kept _ hanswer hlong hdecoded hactive _ := keeps_measured ht hanswer hlong hdecoded hactive
  carried _ := shows_carried ht

end Shows

/-- **Disk rows never outgrow the header**: at every tick of every run, over measured windows, local
or of the service, and over any number of carried ones, and the rows show the shares they were
measured with. -/
theorem rows_within_header (ticks : List DiskTick) (h : ∀ t ∈ ticks, t.Admissible) :
    Machine.Along diskStep (fun s t => RowsWithin t.active (diskTick s t).2 ∧ RowsShow s t)
      {} ticks := by
  have hinit : (({} : DiskState).allotment).Fits := by
    refine ⟨fun pid l hl => (by cases hl), fun pids _ disk => ?_⟩
    rw [List.sum_eq_zero]
    · exact zero_le_one
    · intro x hx
      obtain ⟨pid, -, rfl⟩ := List.mem_map.mp hx
      rfl
  refine Machine.along_of_invariant (I := fun s => s.allotment.Fits) ?_ ?_ hinit h
  · intro s t s' hs ht hstep
    obtain rfl := Option.some.inj hstep
    exact (diskTick_within hs ht).1
  · intro s t hs ht
    exact ⟨(diskTick_within hs ht).2, diskTick_shows ht⟩

/-- A measured window and a carried one, on a disk that is busier at first: three quarters of it
are shown both times. -/
theorem rows_within_header_example :
    let process : ProcessEntry := { pid := 8, name := "a.exe".toList }
    let disk : PidDisk := { serviceTime := 30, perDisk := [⟨0, 30⟩] }
    let window : DiskWindow :=
      { procs := (∅ : OrdMap ℕ PidDisk).insert 8 disk, unattributedServiceTime := 10
        diskTotals := [⟨0, 40⟩], sinceMs := 1000, eventsSeen := 5, eventsDecoded := 5 }
    let outside : DiskOutside :=
      { demanded := true, now := 0, ask := fun _ => .unavailable, starts := true, running := true
        totals := window }
    let busy : DiskActive := (∅ : DiskActive).insert 0 50
    let idle : DiskActive := (∅ : DiskActive).insert 0 20
    let measured : DiskTick :=
      { outside := outside, active := busy, processes := [process], evicted := [] }
    let carried : DiskTick :=
      { outside := { outside with totals := { window with sinceMs := 5 } }
        active := idle, processes := [process], evicted := [] }
    Machine.Along diskStep (fun s t => RowsWithin t.active (diskTick s t).2 ∧ RowsShow s t)
        {} [measured, carried] ∧
      (diskTick {} measured).2.map ProcessEntry.diskActivePct = [some (75 / 2)] ∧
      (diskTick (diskTick {} measured).1 carried).2.map ProcessEntry.diskActivePct =
        [some 15] := by
  intro process disk window outside busy idle measured carried
  have hactive : ∀ a : ℚ, 0 ≤ a → a ≤ 100 → ActiveTimes ((∅ : DiskActive).insert 0 a) := by
    intro a h0 h100 d b hb
    rw [OrdMap.getElem?_insert] at hb
    split at hb
    · rw [← Option.some.inj hb]
      exact ⟨h0, h100⟩
    · simp at hb
  have hsound : ∀ since, WindowSound { window with sinceMs := since } := by
    intro since d
    refine (OrdMap.total_insert_le (fun _ p => timeSum (PidDisk.perDisk p) d) ∅ 8 disk).trans ?_
    rw [OrdMap.total_empty]
    by_cases hd : 0 = d
    · subst hd
      exact (by decide : 30 + 0 ≤ 40)
    · simp [timeSum, disk, hd]
  have henumerated : ∀ p ∈ [process], Enumerated p := by
    intro p hp
    obtain rfl := List.mem_singleton.mp hp
    exact ⟨rfl, rfl, rfl⟩
  refine ⟨rows_within_header [measured, carried] fun t ht => ?_, by decide +kernel,
    by decide +kernel⟩
  rcases List.mem_cons.mp ht with rfl | ht
  · refine ⟨by decide, henumerated, hactive 50 (by norm_num) (by norm_num), ?_⟩
    rintro w (rfl | ⟨n, sample, hask, -⟩)
    · exact hsound 1000
    · cases hask
  · obtain rfl := List.mem_singleton.mp ht
    refine ⟨by decide, henumerated, hactive 20 (by norm_num) (by norm_num), ?_⟩
    rintro w (rfl | ⟨n, sample, hask, -⟩)
    · exact hsound 5
    · cases hask

end Taskman.Sampler
