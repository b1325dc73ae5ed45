import Taskman.Platform.CpuLoad.Table

/-!
# Walking the process table

Neither walk reads past the bytes that the kernel wrote, whatever they say, and on a chain of
records each walk reads the records of the chain, in order.

* `agree_queryProcs`, `agree_processTreeSnapshot` : the walks on a buffer and on its written part;
* `Chain` : records that follow each other, up to one with the distance zero;
* `Chain.queryProcs`, `Chain.processTreeSnapshot` : what the walks make of a chain.
-/

namespace Taskman.CpuLoad

open ProcessOps (TreeLink)
open Checked (agree_ok agree_add agree_mul agree_slice agree_readLe)

/-- The fields that are read unasked lie inside the fixed part of a record. -/
structure Offsets.Fixed (t : Target) : Prop where
  next : 4 ≤ (Offsets.get t).minSize
  threads : 4 + 4 ≤ (Offsets.get t).minSize
  workingSetPrivate : (Offsets.get t).workingSetPrivate + 8 ≤ (Offsets.get t).minSize
  hardFaults : (Offsets.get t).hardFaults + 4 ≤ (Offsets.get t).minSize
  createTime : (Offsets.get t).createTime + 8 ≤ (Offsets.get t).minSize
  userTime : (Offsets.get t).userTime + 8 ≤ (Offsets.get t).minSize
  kernelTime : (Offsets.get t).kernelTime + 8 ≤ (Offsets.get t).minSize
  imageName : (Offsets.get t).imageName + 4 ≤ (Offsets.get t).minSize
  imageNameBuffer : (Offsets.get t).imageNameBuffer + t.usizeBytes ≤ (Offsets.get t).minSize
  pid : (Offsets.get t).pid + t.usizeBytes ≤ (Offsets.get t).minSize
  inheritedFrom : (Offsets.get t).inheritedFrom + t.usizeBytes ≤ (Offsets.get t).minSize
  basePriority : (Offsets.get t).basePriority + 4 ≤ (Offsets.get t).minSize
  sessionId : (Offsets.get t).sessionId + 4 ≤ (Offsets.get t).minSize
  handleCount : (Offsets.get t).handleCount + 4 ≤ (Offsets.get t).minSize
  peakWorkingSet : (Offsets.get t).peakWorkingSet + t.usizeBytes ≤ (Offsets.get t).minSize
  workingSet : (Offsets.get t).workingSet + t.usizeBytes ≤ (Offsets.get t).minSize
  commit : (Offsets.get t).commit + t.usizeBytes ≤ (Offsets.get t).minSize

theorem Offsets.fixed (t : Target) : Offsets.Fixed t := by
  cases t <;> constructor <;> decide

theorem threadsEnd_of_threadsOf {t : Target} {layout : ThreadLayout}
    {record threadCount threads threadsEnd : ℕ}
    (h : threadsOf t layout record threadCount = some (threads, threadsEnd)) :
    threads + threadCount * layout.threadSize = threadsEnd := by
  unfold threadsOf at h
  obtain ⟨start, -, h⟩ := Option.bind_eq_some_iff.mp h
  obtain ⟨bytes, hbytes, h⟩ := Option.bind_eq_some_iff.mp h
  obtain ⟨stop, hstop, h⟩ := Option.bind_eq_some_iff.mp h
  obtain ⟨-, rfl⟩ := Target.checkedMul_eq_some_iff.mp hbytes
  obtain ⟨-, rfl⟩ := Target.checkedAdd_eq_some_iff.mp hstop
  obtain ⟨rfl, rfl⟩ := Prod.mk.inj (Option.some.inj h)
  rfl

section Agreement

variable {t : Target} {buf : Bytes} {layout : ThreadLayout} {base written pos : ℕ}
  (hlen : written ≤ buf.length) (hbound : written < t.bound)

include hlen hbound

/-! ### Reads within the written bytes -/

theorem agree_readU32 {field : ℕ} (h : pos + field + 4 ≤ written) :
    Checked.Agree (readU32 t (buf.take written) pos field) (readU32 t buf pos field) := by
  refine (agree_add (by omega)).bind fun offset hoffset => ?_
  obtain ⟨-, rfl⟩ := Checked.add_eq_ok.mp hoffset
  exact agree_readLe h hlen hbound

theorem agree_readI64 {field : ℕ} (h : pos + field + 8 ≤ written) :
    Checked.Agree (readI64 t (buf.take written) pos field) (readI64 t buf pos field) := by
  refine (agree_add (by omega)).bind fun offset hoffset => ?_
  obtain ⟨-, rfl⟩ := Checked.add_eq_ok.mp hoffset
  exact (agree_readLe h hlen hbound).bind fun n _ => agree_ok _

theorem agree_readUsize {field : ℕ} (h : pos + field + t.usizeBytes ≤ written) :
    Checked.Agree (readUsize t (buf.take written) pos field) (readUsize t buf pos field) := by
  refine (agree_add (by omega)).bind fun offset hoffset => ?_
  obtain ⟨-, rfl⟩ := Checked.add_eq_ok.mp hoffset
  exact agree_readLe h hlen hbound

theorem agree_allSuspended {threads count : ℕ}
    (h : threads + count * layout.threadSize ≤ written) {indices : List ℕ}
    (hindices : ∀ index ∈ indices, index < count) :
    Checked.Agree (allSuspended t (buf.take written) layout threads indices)
      (allSuspended t buf layout threads indices) := by
  induction indices with
  | nil => exact agree_ok true
  | cons index rest ih =>
    have hindex : index * layout.threadSize + layout.threadSize ≤ count * layout.threadSize := by
      rw [← Nat.succ_mul]
      exact Nat.mul_le_mul_right _ (hindices index List.mem_cons_self)
    have hstate := layout.state_inside
    have hreason := layout.reason_inside
    refine (agree_mul (by omega)).bind fun distance hdistance => ?_
    obtain ⟨-, rfl⟩ := Checked.mul_eq_ok.mp hdistance
    refine (agree_add (by omega)).bind fun base hbase => ?_
    obtain ⟨-, rfl⟩ := Checked.add_eq_ok.mp hbase
    have hstateEnd : threads + index * layout.threadSize + layout.stateOffset + 4 ≤ written := by
      omega
    have hreasonEnd : threads + index * layout.threadSize + layout.reasonOffset + 4 ≤ written := by
      omega
    refine (agree_readU32 hlen hbound hstateEnd).bind fun state _ => ?_
    split_ifs
    · exact agree_ok false
    · refine (agree_readU32 hlen hbound hreasonEnd).bind fun reason _ => ?_
      split_ifs
      · exact agree_ok false
      · exact ih fun i hi => hindices i (List.mem_cons_of_mem index hi)

theorem agree_processSuspended {recordEnd threadCount : ℕ} (hend : recordEnd ≤ written) :
    Checked.Agree (processSuspended t (buf.take written) layout pos recordEnd threadCount)
      (processSuspended t buf layout pos recordEnd threadCount) := by
  have htake : (buf.take written).length = written := List.length_take_of_le hlen
  unfold processSuspended
  split_ifs
  · exact agree_ok _
  cases hthreads : threadsOf t layout pos threadCount with
  | none => exact agree_ok none
  | some range =>
    obtain ⟨threads, threadsEnd⟩ := range
    dsimp only
    rw [htake]
    by_cases hstop : recordEnd < threadsEnd
    · rw [if_pos (Or.inl hstop), if_pos (Or.inl hstop)]
      exact agree_ok none
    · rw [if_neg (by omega), if_neg (by omega)]
      have hrange := threadsEnd_of_threadsOf hthreads
      have hindices : ∀ index ∈ List.range threadCount, index < threadCount := fun _ =>
        List.mem_range.mp
      refine (agree_allSuspended hlen hbound (by omega) hindices).bind fun all _ => ?_
      exact agree_ok _

theorem agree_readHardFaults {recordEnd : ℕ} (hfits : pos + (Offsets.get t).minSize ≤ written) :
    Checked.Agree (readHardFaults t (buf.take written) pos recordEnd)
      (readHardFaults t buf pos recordEnd) := by
  have hfixed := (Offsets.fixed t).hardFaults
  refine (agree_add (by omega)).bind fun field hfield => ?_
  obtain ⟨-, rfl⟩ := Checked.add_eq_ok.mp hfield
  refine (agree_add (by omega)).bind fun stop hstop => ?_
  split_ifs
  · exact (agree_readU32 hlen hbound (by omega)).bind fun faults _ => agree_ok _
  · exact agree_ok none

omit hlen hbound in
theorem ioCountersBase_le {recordEnd base : ℕ} (h : ioCountersBase t pos recordEnd = some base) :
    base + IO_COUNTERS_BYTES ≤ recordEnd := by
  unfold ioCountersBase at h
  obtain ⟨start, -, h⟩ := Option.bind_eq_some_iff.mp h
  obtain ⟨stop, hstop, h⟩ := Option.bind_eq_some_iff.mp h
  obtain ⟨-, rfl⟩ := Target.checkedAdd_eq_some_iff.mp hstop
  obtain ⟨hle, h⟩ := Option.ite_none_right_eq_some.mp h
  rw [← Option.some.inj h]
  exact hle

theorem agree_readIoOperationCount {recordEnd : ℕ} (hend : recordEnd ≤ written) :
    Checked.Agree (readIoOperationCount t (buf.take written) pos recordEnd)
      (readIoOperationCount t buf pos recordEnd) := by
  unfold readIoOperationCount
  cases hcounters : ioCountersBase t pos recordEnd with
  | none => exact agree_ok none
  | some base =>
    have hbase := ioCountersBase_le hcounters
    have hcounts : IO_COUNTERS_BYTES = 48 := rfl
    refine (agree_readI64 hlen hbound (by omega)).bind fun read _ => ?_
    refine (agree_readI64 hlen hbound (by omega)).bind fun write _ => ?_
    refine (agree_readI64 hlen hbound (by omega)).bind fun other _ => ?_
    exact agree_ok _

theorem agree_readIoTransferBytes {recordEnd : ℕ} (hend : recordEnd ≤ written) :
    Checked.Agree (readIoTransferBytes t (buf.take written) pos recordEnd)
      (readIoTransferBytes t buf pos recordEnd) := by
  unfold readIoTransferBytes
  cases hcounters : ioCountersBase t pos recordEnd with
  | none => exact agree_ok none
  | some base =>
    have hbase := ioCountersBase_le hcounters
    have hcounts : IO_COUNTERS_BYTES = 48 := rfl
    refine (agree_readI64 hlen hbound (by omega)).bind fun read _ => ?_
    refine (agree_readI64 hlen hbound (by omega)).bind fun write _ => ?_
    exact agree_ok _

theorem agree_imageNameAt {lenBytes : ℕ} {candidates : List ℕ} :
    Checked.Agree (imageNameAt t (buf.take written) written lenBytes candidates)
      (imageNameAt t buf written lenBytes candidates) := by
  induction candidates with
  | nil => exact agree_ok []
  | cons start candidates ih =>
    unfold imageNameAt
    split_ifs with hrange
    · exact ih
    · refine (agree_add (by omega)).bind fun stop hstop => ?_
      obtain ⟨-, rfl⟩ := Checked.add_eq_ok.mp hstop
      refine (agree_slice (Nat.le_add_right start lenBytes) (by omega) hlen).bind fun bytes _ => ?_
      dsimp only
      split_ifs
      · exact ih
      · exact agree_ok _

theorem agree_parseImageName (hfits : pos + (Offsets.get t).minSize ≤ written) :
    Checked.Agree (parseImageName t (buf.take written) base pos written)
      (parseImageName t buf base pos written) := by
  have hname := (Offsets.fixed t).imageName
  have hbuffer := (Offsets.fixed t).imageNameBuffer
  refine (agree_add (by omega)).bind fun field hfield => ?_
  obtain ⟨-, rfl⟩ := Checked.add_eq_ok.mp hfield
  refine (agree_add (by omega)).bind fun stop hstop => ?_
  split_ifs
  · exact agree_ok []
  refine (agree_readUsize hlen hbound (by omega)).bind fun raw _ => ?_
  refine (agree_readU32 hlen hbound (by omega)).bind fun len _ => ?_
  dsimp only
  split_ifs
  · exact agree_ok []
  · exact agree_imageNameAt hlen hbound
  · exact agree_imageNameAt hlen hbound

/-! ### Records within the written bytes -/

theorem agree_readEntry {recordEnd : ℕ} (hfits : pos + (Offsets.get t).minSize ≤ written)
    (hend : recordEnd ≤ written) :
    Checked.Agree (readEntry t (buf.take written) base written pos recordEnd)
      (readEntry t buf base written pos recordEnd) := by
  obtain ⟨-, hthreads, hprivate, -, hcreate, huser, hkernel, -, -, hpid, -, hpriority, hsession,
    hhandles, hpeak, hworking, hcommit⟩ := Offsets.fixed t
  refine (agree_readU32 hlen hbound (by omega)).bind fun threadCount _ => ?_
  refine (agree_readI64 hlen hbound (by omega)).bind fun workingSetPrivate _ => ?_
  refine (agree_readI64 hlen hbound (by omega)).bind fun createTime _ => ?_
  refine (agree_readI64 hlen hbound (by omega)).bind fun user _ => ?_
  refine (agree_readI64 hlen hbound (by omega)).bind fun kernel _ => ?_
  refine (agree_readUsize hlen hbound (by omega)).bind fun pid _ => ?_
  refine (agree_readU32 hlen hbound (by omega)).bind fun basePriority _ => ?_
  refine (agree_readU32 hlen hbound (by omega)).bind fun sessionId _ => ?_
  refine (agree_readU32 hlen hbound (by omega)).bind fun handleCount _ => ?_
  refine (agree_readUsize hlen hbound (by omega)).bind fun peakWorkingSet _ => ?_
  refine (agree_readUsize hlen hbound (by omega)).bind fun workingSet _ => ?_
  refine (agree_readUsize hlen hbound (by omega)).bind fun commit _ => ?_
  refine (agree_readHardFaults hlen hbound hfits).bind fun hardFaults _ => ?_
  refine (agree_readIoOperationCount hlen hbound hend).bind fun ioOps _ => ?_
  refine (agree_readIoTransferBytes hlen hbound hend).bind fun ioBytes _ => ?_
  refine (agree_parseImageName hlen hbound hfits).bind fun name _ => ?_
  exact agree_ok _

theorem agree_readRecord {recordEnd : ℕ} (hfits : pos + (Offsets.get t).minSize ≤ written)
    (hend : recordEnd ≤ written) :
    Checked.Agree (readRecord t (buf.take written) layout base written pos recordEnd)
      (readRecord t buf layout base written pos recordEnd) := by
  refine (agree_readEntry hlen hbound hfits hend).bind fun entry _ => ?_
  split_ifs
  · exact (agree_processSuspended hlen hbound hend).bind fun suspended _ => agree_ok _
  · exact agree_ok _

theorem agree_readLink (hfits : pos + (Offsets.get t).minSize ≤ written) :
    Checked.Agree (readLink t (buf.take written) pos) (readLink t buf pos) := by
  have hpid := (Offsets.fixed t).pid
  have hparent := (Offsets.fixed t).inheritedFrom
  have hcreate := (Offsets.fixed t).createTime
  refine (agree_readUsize hlen hbound (by omega)).bind fun pid _ => ?_
  refine (agree_readUsize hlen hbound (by omega)).bind fun parentPid _ => ?_
  refine (agree_readI64 hlen hbound (by omega)).bind fun createTime _ => ?_
  exact agree_ok _

end Agreement

/-! ### One turn of each walk -/

section Turn

variable {t : Target} {buf : Bytes} {layout : ThreadLayout} {base written pos : ℕ}

/-- A turn of `query_procs` at a record whose fixed part was written. -/
theorem queryProcsFrom_of_fits (hfits : pos + (Offsets.get t).minSize ≤ written)
    (hbound : written < t.bound) (table : ProcTable) :
    queryProcsFrom t buf layout base written pos table = (do
      let next ← readU32 t buf pos 0
      if next = 0 then do
        let r ← readRecord t buf layout base written pos written
        .ok (some (table.add r))
      else if (Offsets.get t).minSize ≤ next then
        match recordEnd t written pos next with
        | none => .ok none
        | some stop => do
          let r ← readRecord t buf layout base written pos stop
          queryProcsFrom t buf layout base written stop (table.add r)
      else .ok (some table)) := by
  have hfixed : t.checkedAdd pos (Offsets.get t).minSize = some (pos + (Offsets.get t).minSize) :=
    if_pos (by omega)
  rw [queryProcsFrom]
  split
  · rename_i hnone
    rw [hfixed] at hnone
    cases hnone
  · rename_i fixedEnd hsome
    rw [hfixed] at hsome
    obtain rfl := Option.some.inj hsome
    rw [dif_neg (by omega)]
    refine bind_congr fun next => ?_
    split_ifs
    · rfl
    · split <;> rename_i hend <;> rw [hend]
    · rfl

theorem queryProcsFrom_of_short (hshort : written < pos + (Offsets.get t).minSize)
    (table : ProcTable) :
    queryProcsFrom t buf layout base written pos table =
      .ok (if pos + (Offsets.get t).minSize < t.bound then some table else none) := by
  rw [queryProcsFrom]
  split
  · rename_i hnone
    rw [Target.checkedAdd, ite_eq_right_iff] at hnone
    rw [if_neg fun hlt => by cases hnone hlt]
  · rename_i fixedEnd hsome
    obtain ⟨hlt, rfl⟩ := Target.checkedAdd_eq_some_iff.mp hsome
    rw [dif_pos hshort, if_pos hlt]

/-- A turn of `process_tree_snapshot` at a record whose fixed part was written. -/
theorem treeSnapshotFrom_of_fits (hfits : pos + (Offsets.get t).minSize ≤ written)
    (hbound : written < t.bound) (out : List TreeLink) :
    treeSnapshotFrom t buf written pos out = (do
      let link ← readLink t buf pos
      let next ← readU32 t buf pos 0
      if next = 0 then .ok (some (out ++ [link]))
      else if next < (Offsets.get t).minSize then .ok none
      else
        match t.checkedAdd pos next with
        | none => .ok none
        | some stop => treeSnapshotFrom t buf written stop (out ++ [link])) := by
  have hfixed : t.checkedAdd pos (Offsets.get t).minSize = some (pos + (Offsets.get t).minSize) :=
    if_pos (by omega)
  rw [treeSnapshotFrom]
  split
  · rename_i hnone
    rw [hfixed] at hnone
    cases hnone
  · rename_i fixedEnd hsome
    rw [hfixed] at hsome
    obtain rfl := Option.some.inj hsome
    rw [dif_neg (by omega)]
    refine bind_congr fun link => bind_congr fun next => ?_
    split_ifs
    · rfl
    · rfl
    · split <;> rename_i hend <;> rw [hend]

theorem treeSnapshotFrom_of_short (hshort : written < pos + (Offsets.get t).minSize)
    (out : List TreeLink) : treeSnapshotFrom t buf written pos out = .ok none := by
  rw [treeSnapshotFrom]
  split
  · rfl
  · rename_i fixedEnd hsome
    obtain ⟨-, rfl⟩ := Target.checkedAdd_eq_some_iff.mp hsome
    rw [dif_pos hshort]

end Turn

/-! ### Nothing past the written bytes -/

section Walks

variable {t : Target} {buf : Bytes} {layout : ThreadLayout} {base written pos : ℕ}

theorem agree_queryProcsFrom (hlen : written ≤ buf.length) (hbound : written < t.bound)
    (table : ProcTable) :
    Checked.Agree (queryProcsFrom t (buf.take written) layout base written pos table)
      (queryProcsFrom t buf layout base written pos table) := by
  -- on how much of the written bytes is left
  induction hleft : written - pos using Nat.strong_induction_on generalizing pos table with
  | _ left ih =>
    by_cases hfits : pos + (Offsets.get t).minSize ≤ written
    · have hnext := (Offsets.fixed t).next
      have hmin := Offsets.minSize_pos t
      rw [queryProcsFrom_of_fits hfits hbound, queryProcsFrom_of_fits hfits hbound]
      refine (agree_readU32 hlen hbound (by omega)).bind fun next _ => ?_
      split_ifs
      · exact (agree_readRecord hlen hbound hfits le_rfl).bind fun r _ => agree_ok _
      · cases hend : recordEnd t written pos next with
        | none => exact agree_ok none
        | some stop =>
          obtain ⟨-, hstop, hle⟩ := recordEnd_eq_some_iff.mp hend
          refine (agree_readRecord hlen hbound hfits hle).bind fun r _ => ?_
          exact ih (written - stop) (by omega) (table.add r) rfl
      · exact agree_ok (some table)
    · rw [queryProcsFrom_of_short (by omega), queryProcsFrom_of_short (by omega)]
      exact agree_ok _

/-- **`query_procs` reads nothing but what was written**, and it does not panic. -/
theorem agree_queryProcs (hlen : written ≤ buf.length) (hbound : written < t.bound) :
    Checked.Agree (queryProcs t (buf.take written) layout base written)
      (queryProcs t buf layout base written) :=
  agree_queryProcsFrom hlen hbound {}

theorem agree_treeSnapshotFrom (hlen : written ≤ buf.length) (hbound : written < t.bound)
    (out : List TreeLink) :
    Checked.Agree (treeSnapshotFrom t (buf.take written) written pos out)
      (treeSnapshotFrom t buf written pos out) := by
  induction hleft : written - pos using Nat.strong_induction_on generalizing pos out with
  | _ left ih =>
    by_cases hfits : pos + (Offsets.get t).minSize ≤ written
    · have hnext := (Offsets.fixed t).next
      have hmin := Offsets.minSize_pos t
      rw [treeSnapshotFrom_of_fits hfits hbound, treeSnapshotFrom_of_fits hfits hbound]
      refine (agree_readLink hlen hbound hfits).bind fun link _ => ?_
      refine (agree_readU32 hlen hbound (by omega)).bind fun next _ => ?_
      split_ifs
      · exact agree_ok _
      · exact agree_ok none
      · cases hend : t.checkedAdd pos next with
        | none => exact agree_ok none
        | some stop =>
          obtain ⟨-, rfl⟩ := Target.checkedAdd_eq_some_iff.mp hend
          exact ih (written - (pos + next)) (by omega) (out ++ [link]) rfl
    · rw [treeSnapshotFrom_of_short (by omega), treeSnapshotFrom_of_short (by omega)]
      exact agree_ok none

/-- **`process_tree_snapshot` reads nothing but what was written**, and it does not panic. -/
theorem agree_processTreeSnapshot (hlen : written ≤ buf.length) (hbound : written < t.bound) :
    Checked.Agree (processTreeSnapshot t (buf.take written) written)
      (processTreeSnapshot t buf written) :=
  agree_treeSnapshotFrom hlen hbound []

/-! ### Chains -/

/-- Records from a position on, each with where it begins and ends.  The fixed part of each was
written, each tells how far the next one is, and the last tells zero. -/
inductive Chain (t : Target) (buf : Bytes) (written : ℕ) : ℕ → List (ℕ × ℕ) → Prop
  | last {pos : ℕ} (hfits : pos + (Offsets.get t).minSize ≤ written)
      (hnext : readU32 t buf pos 0 = .ok 0) : Chain t buf written pos [(pos, written)]
  | step {pos next : ℕ} {spans : List (ℕ × ℕ)}
      (hfits : pos + (Offsets.get t).minSize ≤ written)
      (hnext : readU32 t buf pos 0 = .ok next) (hsize : (Offsets.get t).minSize ≤ next)
      (hrest : Chain t buf written (pos + next) spans) :
      Chain t buf written pos ((pos, pos + next) :: spans)

theorem Chain.fits {spans : List (ℕ × ℕ)} (h : Chain t buf written pos spans) :
    pos + (Offsets.get t).minSize ≤ written := by
  cases h with
  | last hfits => exact hfits
  | step hfits => exact hfits

/-- A record whose fixed part was written is read. -/
theorem readRecord_of_fits (layout : ThreadLayout) (base : ℕ) (hlen : written ≤ buf.length)
    (hbound : written < t.bound) {recordEnd : ℕ} (hfits : pos + (Offsets.get t).minSize ≤ written)
    (hend : recordEnd ≤ written) :
    ∃ r, readRecord t buf layout base written pos recordEnd = .ok r := by
  obtain ⟨r, -, hr⟩ :
      Checked.Agree (readRecord t (buf.take written) layout base written pos recordEnd) _ :=
    agree_readRecord hlen hbound hfits hend
  exact ⟨r, hr⟩

/-- **`query_procs` on a chain**: it reads the records in order, and adds each to its maps. -/
theorem Chain.queryProcsFrom (layout : ThreadLayout) (base : ℕ) (hlen : written ≤ buf.length)
    (hbound : written < t.bound) {spans : List (ℕ × ℕ)} (h : Chain t buf written pos spans)
    (table : ProcTable) :
    ∃ records, spans.mapM (fun span => readRecord t buf layout base written span.1 span.2) =
        .ok records ∧
      CpuLoad.queryProcsFrom t buf layout base written pos table =
        .ok (some (records.foldl ProcTable.add table)) := by
  induction h generalizing table with
  | last hfits hnext =>
    obtain ⟨r, hr⟩ := readRecord_of_fits layout base hlen hbound hfits le_rfl
    refine ⟨[r], ?_, ?_⟩
    · rw [List.mapM_cons, hr, List.mapM_nil]
      rfl
    · rw [queryProcsFrom_of_fits hfits hbound, hnext, Checked.bind_ok, if_pos rfl, hr]
      rfl
  | @step pos next spans hfits hnext hsize hrest ih =>
    have hmin := Offsets.minSize_pos t
    have hle : pos + next ≤ written := by
      have := hrest.fits
      omega
    have hend : recordEnd t written pos next = some (pos + next) :=
      recordEnd_eq_some_iff.mpr ⟨by omega, rfl, hle⟩
    obtain ⟨r, hr⟩ := readRecord_of_fits layout base hlen hbound hfits hle
    obtain ⟨records, hrecords, hwalk⟩ := ih (table.add r)
    refine ⟨r :: records, ?_, ?_⟩
    · rw [List.mapM_cons, hr, hrecords]
      rfl
    · rw [queryProcsFrom_of_fits hfits hbound, hnext, Checked.bind_ok, if_neg (by omega),
        if_pos hsize, hend]
      dsimp only
      rw [hr, Checked.bind_ok, hwalk, List.foldl_cons]

/-- **`process_tree_snapshot` on a chain** returns the links of its records, in order. -/
theorem Chain.treeSnapshotFrom (hlen : written ≤ buf.length) (hbound : written < t.bound)
    {spans : List (ℕ × ℕ)} (h : Chain t buf written pos spans) (out : List TreeLink) :
    ∃ links, spans.mapM (fun span => readLink t buf span.1) = .ok links ∧
      CpuLoad.treeSnapshotFrom t buf written pos out = .ok (some (out ++ links)) := by
  induction h generalizing out with
  | last hfits hnext =>
    obtain ⟨link, -, hlink⟩ := agree_readLink hlen hbound hfits
    refine ⟨[link], ?_, ?_⟩
    · rw [List.mapM_cons, hlink, List.mapM_nil]
      rfl
    · rw [treeSnapshotFrom_of_fits hfits hbound, hlink, Checked.bind_ok, hnext, Checked.bind_ok,
        if_pos rfl]
  | @step pos next spans hfits hnext hsize hrest ih =>
    have hmin := Offsets.minSize_pos t
    have hend : t.checkedAdd pos next = some (pos + next) :=
      Target.checkedAdd_eq_some_iff.mpr ⟨by have := hrest.fits; omega, rfl⟩
    obtain ⟨link, -, hlink⟩ := agree_readLink hlen hbound hfits
    obtain ⟨links, hlinks, hwalk⟩ := ih (out ++ [link])
    refine ⟨link :: links, ?_, ?_⟩
    · rw [List.mapM_cons, hlink, hlinks]
      rfl
    · rw [treeSnapshotFrom_of_fits hfits hbound, hlink, Checked.bind_ok, hnext, Checked.bind_ok,
        if_neg (by omega), if_neg (by omega), hend]
      dsimp only
      rw [hwalk, List.append_assoc]
      rfl

end Walks

/-! ### The process table -/

/-- The map of processes keeps the records with sound times. -/
theorem ProcTable.procs_foldl_add (records : List Record) (table : ProcTable) :
    (records.foldl ProcTable.add table).procs =
      (((records.map Record.entry).filter (·.Timed)).map fun e => (e.pid, e)).foldl
        (fun procs p => procs.insert p.1 p.2) table.procs := by
  induction records generalizing table with
  | nil => rfl
  | cons r records ih =>
    rw [List.foldl_cons, ih, List.map_cons]
    by_cases htimed : r.entry.Timed
    · rw [List.filter_cons_of_pos (by simpa using htimed), ProcTable.add, if_pos htimed]
      rfl
    · rw [List.filter_cons_of_neg (by simpa using htimed), ProcTable.add, if_neg htimed]

/-- With distinct pids the map of processes has exactly the records with sound times. -/
theorem ProcTable.getElem?_procs_iff {records : List Record}
    (hpids : ((records.map Record.entry).map Entry.pid).Nodup) {pid : ℕ} {e : Entry} :
    (records.foldl ProcTable.add {}).procs[pid]? = some e ↔
      e ∈ records.map Record.entry ∧ e.Timed ∧ e.pid = pid := by
  have hmem : ∀ p : ℕ × Entry,
      p ∈ ((records.map Record.entry).filter (·.Timed)).map (fun e => (e.pid, e)) ↔
        p.2 ∈ records.map Record.entry ∧ p.2.Timed ∧ p.2.pid = p.1 := by
    rintro ⟨pid, e⟩
    simp only [List.mem_map, List.mem_filter, decide_eq_true_eq, Prod.mk.injEq]
    constructor
    · rintro ⟨e, ⟨he, htimed⟩, rfl, rfl⟩
      exact ⟨he, htimed, rfl⟩
    · rintro ⟨he, htimed, rfl⟩
      exact ⟨e, ⟨he, htimed⟩, rfl, rfl⟩
  rw [ProcTable.procs_foldl_add, OrdMap.getElem?_foldl_insert_empty_iff, hmem]
  intro p hp q hq hpq
  obtain ⟨hpmem, -, hppid⟩ := (hmem p).mp hp
  obtain ⟨hqmem, -, hqpid⟩ := (hmem q).mp hq
  exact List.inj_on_of_nodup_map hpids hpmem hqmem (by rw [hppid, hqpid, hpq])

/-! ### Sample tables -/

/-- The layout of threads where pointers have 64 bits. -/
def windows64 : ThreadLayout where
  processSize := 256
  threadSize := 80
  stateOffset := 68
  reasonOffset := 72
  state_inside := by decide
  reason_inside := by decide

/-- A record of the fixed part only, on 64 bits, with the given distance, kernel time and pid. -/
def sampleRecord (next kernel pid : ℕ) : Bytes :=
  Bytes.toLe 4 next ++ List.replicate 44 0 ++ Bytes.toLe 8 kernel ++ List.replicate 24 0 ++
    Bytes.toLe 8 pid ++ List.replicate 104 0

/-- Two processes. -/
def sampleTable : Bytes := sampleRecord 192 7 4 ++ sampleRecord 0 9 8

/-- **Both walks end without reading past the written bytes, and on a chain they read its records in
order.**  `process_tree_snapshot` returns them all; `query_procs` keeps, by pid, those without a
negative time. -/
theorem walks_read_chain {t : Target} {buf : Bytes} (layout : ThreadLayout) (base : ℕ)
    {written : ℕ} (hlen : written ≤ buf.length) (hbound : written < t.bound) :
    Checked.Agree (processTreeSnapshot t (buf.take written) written)
        (processTreeSnapshot t buf written) ∧
      Checked.Agree (queryProcs t (buf.take written) layout base written)
        (queryProcs t buf layout base written) ∧
      ∀ spans, Chain t buf written 0 spans →
        (∃ links, spans.mapM (fun span => readLink t buf span.1) = .ok links ∧
          processTreeSnapshot t buf written = .ok (some links)) ∧
        ∃ records, spans.mapM (fun span => readRecord t buf layout base written span.1 span.2) =
            .ok records ∧
          queryProcs t buf layout base written = .ok (some (records.foldl ProcTable.add {})) ∧
          (((records.map Record.entry).map Entry.pid).Nodup → ∀ (pid : ℕ) (e : Entry),
            (records.foldl ProcTable.add {}).procs[pid]? = some e ↔
              e ∈ records.map Record.entry ∧ e.Timed ∧ e.pid = pid) := by
  refine ⟨agree_processTreeSnapshot hlen hbound, agree_queryProcs hlen hbound, fun spans h => ?_⟩
  obtain ⟨links, hlinks, hsnapshot⟩ := h.treeSnapshotFrom hlen hbound []
  obtain ⟨records, hrecords, hquery⟩ := h.queryProcsFrom layout base hlen hbound {}
  exact ⟨⟨links, hlinks, hsnapshot⟩, records, hrecords, hquery, fun hpids pid e =>
    ProcTable.getElem?_procs_iff hpids⟩

set_option maxRecDepth 4096 in
theorem walks_read_chain_sample :
    (∃ links, [(0, 192), (192, 384)].mapM (fun span => readLink .bits64 sampleTable span.1) =
        .ok links ∧
      processTreeSnapshot .bits64 sampleTable 384 = .ok (some links)) ∧
    ∃ records, [(0, 192), (192, 384)].mapM (fun span =>
        readRecord .bits64 sampleTable windows64 0 384 span.1 span.2) = .ok records ∧
      queryProcs .bits64 sampleTable windows64 0 384 =
        .ok (some (records.foldl ProcTable.add {})) ∧
      (((records.map Record.entry).map Entry.pid).Nodup → ∀ (pid : ℕ) (e : Entry),
        (records.foldl ProcTable.add {}).procs[pid]? = some e ↔
          e ∈ records.map Record.entry ∧ e.Timed ∧ e.pid = pid) :=
  (walks_read_chain windows64 0 (by decide) (by decide)).2.2 _
    (.step (by decide) (rfl : readU32 .bits64 sampleTable 0 0 = .ok 192) (by decide)
      (.last (by decide) rfl))

/-- One process whose kernel time is negative. -/
def untimedTable : Bytes := sampleRecord 0 (2 ^ 64 - 1) 4

theorem not_timed_untimedTable {r : Record}
    (h : readRecord .bits64 untimedTable windows64 0 192 0 192 = .ok r) : ¬ r.entry.Timed := by
  have htimed : (readRecord .bits64 untimedTable windows64 0 192 0 192).toOption.any
      (fun r => decide r.entry.Timed) = false := by decide +kernel
  rw [h] at htimed
  exact of_decide_eq_false htimed

set_option maxRecDepth 4096 in
/-- `query_procs` passes over the only record of this table. -/
theorem not_all_records :
    ¬ ∀ (buf : Bytes) (written : ℕ) (spans : List (ℕ × ℕ)), Chain .bits64 buf written 0 spans →
      ∃ table, queryProcs .bits64 buf windows64 0 written = .ok (some table) ∧
        table.procs.size = spans.length := by
  intro h
  have hnext : readU32 .bits64 untimedTable 0 0 = .ok 0 := rfl
  obtain ⟨r, hr⟩ : ∃ r, readRecord .bits64 untimedTable windows64 0 192 0 192 = .ok r :=
    readRecord_of_fits windows64 0 (by decide) (by decide) (by decide) le_rfl
  have hquery : queryProcs .bits64 untimedTable windows64 0 192 = .ok (some {}) := by
    rw [queryProcs, queryProcsFrom_of_fits (by decide) (by decide), hnext, Checked.bind_ok,
      if_pos rfl, hr, Checked.bind_ok, ProcTable.add, if_neg (not_timed_untimedTable hr)]
  obtain ⟨table, htable, hsize⟩ := h untimedTable 192 [(0, 192)] (.last (by decide) hnext)
  rw [hquery] at htable
  obtain rfl := Option.some.inj (Except.ok.inj htable)
  exact absurd hsize (by decide)

end Taskman.CpuLoad
