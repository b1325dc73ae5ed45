import Taskman.Core.GroupLoad
import Taskman.Platform.CpuLoad

/-!
# GPU adapters and their engines

The counters list, for every process, its share of the time of each physical engine it uses.  The
shares of one engine add up to the engine's load; an adapter is as busy as its busiest engine.

* `engineLoads`, `adapterEngines` : the engines of one adapter;
* `merge` : the displayed adapters with their loads;
* `busiestEngine` : the highest engine load that the machine totals report;
* `clampPct_shareOf_le_busiestEngine` : **no engine of a displayed adapter exceeds it.**
-/

namespace Taskman.Gpu

open CpuLoad (clampPct clampPct_nonneg clampPct_le)
open BusiestShare (addShare addShareBy shareOf)

/-! ### Records and adapters -/

/-- The identity of an adapter until the system restarts. -/
structure AdapterLuid where
  high : ℤ
  low : ℕ
  deriving DecidableEq

/-- Static adapter info. -/
structure AdapterInfo where
  name : Text
  dedicatedVram : ℕ
  luid : AdapterLuid
  driverVersion : Text
  isSoftware : Bool

/-- One process's share of the time of one engine. -/
structure GpuEngineRecord where
  luid : AdapterLuid
  pid : Option ℕ
  physIndex : Option ℕ
  engineIndex : Option ℕ
  engineType : Text
  utilizationPct : ℚ
  deriving DecidableEq

/-- Memory usage of one adapter. -/
structure GpuAdapterMemRecord where
  luid : AdapterLuid
  dedicatedBytes : ℕ
  sharedBytes : ℕ

/-- One physical engine on one adapter: node, engine ordinal and type. -/
abbrev EngineKey := Option ℕ × Option ℕ × Text

/-- The engine of a record. -/
def GpuEngineRecord.key (r : GpuEngineRecord) : EngineKey :=
  (r.physIndex, r.engineIndex, r.engineType)

/-- The load of one engine type. -/
structure GpuEngine where
  name : Text
  utilPct : ℚ
  deriving DecidableEq

/-- One displayed adapter. -/
structure GpuInfo where
  id : ℕ
  name : Text
  driverVersion : Text
  utilPct : ℚ
  memUsedBytes : ℕ
  memTotalBytes : ℕ
  dedicatedUsedBytes : ℕ
  sharedUsedBytes : ℕ
  luid : Option AdapterLuid
  engines : List GpuEngine

/-- Software renderers are displayed only where there is nothing else. -/
def filterAdapters (adapters : List AdapterInfo) : List AdapterInfo :=
  if adapters.any fun a => !a.isSoftware then adapters.filter fun a => !a.isSoftware else adapters

/-- How many engine types one adapter may report. -/
abbrev MAX_ENGINE_TYPES : ℕ := 16

/-- Load of every physical engine on one adapter, where `round` is what is left of a sum. -/
def engineLoads (round : ℚ → ℚ) (records : List GpuEngineRecord) : List (EngineKey × ℚ) :=
  (records.foldl (fun loads r => addShareBy round loads (r.key, r.utilizationPct)) []).map
    fun load => (load.1, clampPct load.2)

/-- The busiest engine of each type, the busiest type first. -/
def adapterEngines (loads : List (EngineKey × ℚ)) : List GpuEngine :=
  let best : OrdMap Text ℚ := loads.foldl (fun best load =>
    best.alter load.1.2.2 fun e => some (max (e.getD 0) load.2)) ∅
  let out := best.toList.map fun e => (⟨e.1, e.2⟩ : GpuEngine)
  (out.mergeSort fun a b =>
    ((compare b.utilPct a.utilPct).then (compare a.name b.name)).isLE).take MAX_ENGINE_TYPES

/-- One adapter with its records. -/
def gpuInfo (round : ℚ → ℚ) (engineRecords : List GpuEngineRecord)
    (adapterMemRecords : List GpuAdapterMemRecord) (id : ℕ) (a : AdapterInfo) : GpuInfo :=
  let loads := engineLoads round (engineRecords.filter fun r => decide (r.luid = a.luid))
  let mem := adapterMemRecords.find? fun m => decide (m.luid = a.luid)
  let dedicated := (mem.map GpuAdapterMemRecord.dedicatedBytes).getD 0
  { id
    name := if a.name.isEmpty then "GPU ".toList ++ Nat.toDigits 10 id else a.name
    driverVersion := a.driverVersion
    utilPct := (loads.map Prod.snd).foldl max 0
    memUsedBytes := dedicated
    memTotalBytes := a.dedicatedVram
    dedicatedUsedBytes := dedicated
    sharedUsedBytes := (mem.map GpuAdapterMemRecord.sharedBytes).getD 0
    luid := some a.luid
    engines := adapterEngines loads }

/-- The displayed adapters with their loads, where `round` is what is left of a sum. -/
def merge (round : ℚ → ℚ) (adapters : List AdapterInfo) (engineRecords : List GpuEngineRecord)
    (adapterMemRecords : List GpuAdapterMemRecord) : List GpuInfo :=
  adapters.mapIdx (gpuInfo round engineRecords adapterMemRecords)

/-- The highest engine load that the machine totals report. -/
def busiestEngine (gpus : List GpuInfo) : ℚ := (gpus.map GpuInfo.utilPct).foldl max 0

/-- Whether an adapter is displayed. -/
def shown (adapters : List AdapterInfo) (luid : AdapterLuid) : Bool :=
  adapters.any fun a => decide (a.luid = luid)

variable {round : ℚ → ℚ} {adapters : List AdapterInfo} {engineRecords : List GpuEngineRecord}
  {adapterMemRecords : List GpuAdapterMemRecord}

theorem mem_merge {g : GpuInfo} (h : g ∈ merge round adapters engineRecords adapterMemRecords) :
    ∃ a ∈ adapters, adapters[g.id]? = some a ∧
      g = gpuInfo round engineRecords adapterMemRecords g.id a := by
  obtain ⟨i, hi, rfl⟩ := List.mem_mapIdx.mp h
  exact ⟨adapters[i], List.getElem_mem hi, List.getElem?_eq_getElem hi, rfl⟩

variable (round engineRecords adapterMemRecords) in
theorem exists_mem_merge {a : AdapterInfo} (h : a ∈ adapters) :
    ∃ id, gpuInfo round engineRecords adapterMemRecords id a ∈
      merge round adapters engineRecords adapterMemRecords := by
  obtain ⟨i, hi, rfl⟩ := List.mem_iff_getElem.mp h
  exact ⟨i, List.mem_mapIdx.mpr ⟨i, hi, rfl⟩⟩

/-! ### Engine loads -/

theorem busiestEngine_nonneg (gpus : List GpuInfo) : 0 ≤ busiestEngine gpus :=
  (Ranges.foldl_max_le_iff.mp le_rfl).1

theorem le_busiestEngine {gpus : List GpuInfo} {g : GpuInfo} (h : g ∈ gpus) :
    g.utilPct ≤ busiestEngine gpus :=
  Ranges.le_foldl_max (List.mem_map_of_mem h) 0

theorem foldl_addShare_records (records : List GpuEngineRecord) :
    records.foldl (fun loads r => addShareBy id loads (r.key, r.utilizationPct)) [] =
      (records.map fun r => (r.key, r.utilizationPct)).foldl addShare [] :=
  List.foldl_map.symm

/-- The load of an engine is the sum of the shares of it, cut at 100. -/
theorem clampPct_shareOf_le (records : List GpuEngineRecord) (key : EngineKey) :
    clampPct (shareOf (records.map fun r => (r.key, r.utilizationPct)) key) ≤
      ((engineLoads id records).map Prod.snd).foldl max 0 := by
  have hnil : (([] : List (EngineKey × ℚ)).map Prod.fst).Nodup := List.nodup_nil
  obtain ⟨hkeys, hsum⟩ :=
    BusiestShare.foldl_addShare_spec (records.map fun r => (r.key, r.utilizationPct)) hnil
  rw [← (hsum key).trans (zero_add _)]
  by_cases hmem : key ∈ ((records.map fun r => (r.key, r.utilizationPct)).foldl addShare []).map
      Prod.fst
  · obtain ⟨load, hlisted, rfl⟩ := List.mem_map.mp hmem
    rw [BusiestShare.shareOf_of_mem hkeys hlisted]
    have hload : (load.1, clampPct load.2) ∈ engineLoads id records := by
      rw [engineLoads, foldl_addShare_records]
      exact List.mem_map_of_mem (f := fun load : EngineKey × ℚ => (load.1, clampPct load.2)) hlisted
    exact Ranges.le_foldl_max (List.mem_map_of_mem (f := Prod.snd) hload) 0
  · rw [BusiestShare.shareOf_eq_zero hmem, CpuLoad.clampPct_of_nonpos le_rfl]
    exact (Ranges.foldl_max_le_iff.mp le_rfl).1

/-- **No engine of a displayed adapter exceeds the machine totals.** -/
theorem clampPct_shareOf_le_busiestEngine {luid : AdapterLuid} (h : shown adapters luid = true)
    (key : EngineKey) :
    clampPct (shareOf ((engineRecords.filter fun r => decide (r.luid = luid)).map fun r =>
      (r.key, r.utilizationPct)) key) ≤
      busiestEngine (merge id adapters engineRecords adapterMemRecords) := by
  obtain ⟨a, ha, hluid⟩ := List.any_eq_true.mp h
  obtain rfl := of_decide_eq_true hluid
  obtain ⟨id, hid⟩ := exists_mem_merge id engineRecords adapterMemRecords ha
  exact (clampPct_shareOf_le _ key).trans (le_busiestEngine hid)

/-- The totals cover the displayed adapters only. -/
theorem merge_filter_shown :
    merge round adapters (engineRecords.filter fun r => shown adapters r.luid)
        (adapterMemRecords.filter fun m => shown adapters m.luid) =
      merge round adapters engineRecords adapterMemRecords := by
  refine List.mapIdx_eq_mapIdx_iff.mpr fun i hi => ?_
  have hshown : shown adapters adapters[i].luid = true :=
    List.any_eq_true.mpr ⟨adapters[i], List.getElem_mem hi, decide_eq_true rfl⟩
  have hengines : (engineRecords.filter fun r => shown adapters r.luid).filter
      (fun r => decide (r.luid = adapters[i].luid)) =
        engineRecords.filter fun r => decide (r.luid = adapters[i].luid) := by
    rw [List.filter_filter]
    refine List.filter_congr fun r _ => ?_
    by_cases hr : r.luid = adapters[i].luid
    · rw [hr, hshown, Bool.and_true]
    · rw [decide_eq_false hr, Bool.false_and]
  have hmem : (adapterMemRecords.filter fun m => shown adapters m.luid).find?
      (fun m => decide (m.luid = adapters[i].luid)) =
        adapterMemRecords.find? fun m => decide (m.luid = adapters[i].luid) := by
    rw [List.find?_filter]
    congr 1
    funext m
    by_cases hm : m.luid = adapters[i].luid
    · simp [hm, hshown]
    · simp [hm]
  unfold gpuInfo
  rw [hengines, hmem]

end Taskman.Gpu
