import Taskman.Binary.Within
import Taskman.Platform.CpuLoad.Accountant
import Taskman.Platform.ProcessOps.Tree
import Taskman.Text.Utf16

/-!
# The kernel's process table

`NtQuerySystemInformation` fills a buffer with records of processes, each with the distance to the
next one, or zero in the last.  Two functions walk this chain: `query_procs` for the accountant and
`process_tree_snapshot` for the creation tree.  A read outside the buffer is a panic, and so is an
address past the last `usize`.

* `Offsets.get` : the layout of a record, by the width of pointers;
* `readRecord`, `readLink` : what the two walks read of a record;
* `queryProcs`, `processTreeSnapshot` : the walks, which **end because a step is at least as long
  as the fixed part of a record**.

The `windows` crate declares the layout of a thread (`ThreadLayout`).  Numbers are little-endian, as
on every target of Windows.
-/

namespace Taskman.CpuLoad

open ProcessOps (TreeLink)

/-! ### Numbers of the target -/

/-- What the program is compiled for, by the width of pointers. -/
inductive Target where
  | bits32
  | bits64
  deriving DecidableEq

/-- `size_of::<usize>()`. -/
def Target.usizeBytes : Target → ℕ
  | .bits32 => 4
  | .bits64 => 8

/-- The values of a `usize` are below this bound. -/
def Target.bound (t : Target) : ℕ := 256 ^ t.usizeBytes

theorem Target.le_bound (t : Target) : 2 ^ 32 ≤ t.bound := by
  cases t <;> decide

/-- `usize::checked_add`. -/
def Target.checkedAdd (t : Target) (a b : ℕ) : Option ℕ :=
  if a + b < t.bound then some (a + b) else none

/-- `usize::checked_mul`. -/
def Target.checkedMul (t : Target) (a b : ℕ) : Option ℕ :=
  if a * b < t.bound then some (a * b) else none

variable (t : Target) (buf : Bytes)

/-- The code has no errors of its own, only panics. -/
abbrev Walk (α : Type) := Checked Empty α

/-- `read_u32(buf, pos + field)`. -/
def readU32 (pos field : ℕ) : Walk ℕ := do
  let offset ← Checked.add t.bound pos field
  Checked.readLe t.bound buf offset 4

/-- `read_i64(buf, pos + field)`. -/
def readI64 (pos field : ℕ) : Walk ℤ := do
  let offset ← Checked.add t.bound pos field
  let n ← Checked.readLe t.bound buf offset 8
  .ok ((n : ℤ).bmod (2 ^ 64))

/-- `read_usize(buf, pos + field)`. -/
def readUsize (pos field : ℕ) : Walk ℕ := do
  let offset ← Checked.add t.bound pos field
  Checked.readLe t.bound buf offset t.usizeBytes

/-! ### The layout of a record -/

/-- Byte offsets into `SYSTEM_PROCESS_INFORMATION`. -/
structure Offsets where
  workingSetPrivate : ℕ
  hardFaults : ℕ
  createTime : ℕ
  userTime : ℕ
  kernelTime : ℕ
  pid : ℕ
  /-- `Length` of the image name. -/
  imageName : ℕ
  /-- `Buffer` of the image name. -/
  imageNameBuffer : ℕ
  basePriority : ℕ
  /-- The parent pid recorded at creation. -/
  inheritedFrom : ℕ
  sessionId : ℕ
  handleCount : ℕ
  peakWorkingSet : ℕ
  workingSet : ℕ
  commit : ℕ
  ioCounters : ℕ
  /-- The fixed part of every record. -/
  minSize : ℕ

/-- Where the fields of a record are, with pointers of either size. -/
def Offsets.get : Target → Offsets
  | .bits64 =>
    { workingSetPrivate := 8
      hardFaults := 16
      createTime := 32
      userTime := 40
      kernelTime := 48
      imageName := 56
      imageNameBuffer := 64
      basePriority := 72
      pid := 80
      inheritedFrom := 88
      handleCount := 96
      sessionId := 100
      peakWorkingSet := 136
      workingSet := 144
      commit := 184
      ioCounters := 208
      minSize := 192 }
  | .bits32 =>
    { workingSetPrivate := 8
      hardFaults := 16
      createTime := 32
      userTime := 40
      kernelTime := 48
      imageName := 56
      imageNameBuffer := 60
      basePriority := 64
      pid := 68
      inheritedFrom := 72
      handleCount := 76
      sessionId := 80
      peakWorkingSet := 100
      workingSet := 104
      commit := 124
      ioCounters := 136
      minSize := 132 }

/-- `size_of::<IO_COUNTERS>()`. -/
abbrev IO_COUNTERS_BYTES : ℕ := 48

/-- What the `windows` crate declares of processes and threads: a process record is followed by its
threads, each with two fields that lie inside it. -/
structure ThreadLayout where
  /-- `size_of::<SYSTEM_PROCESS_INFORMATION>()`. -/
  processSize : ℕ
  /-- `size_of::<SYSTEM_THREAD_INFORMATION>()`. -/
  threadSize : ℕ
  stateOffset : ℕ
  reasonOffset : ℕ
  state_inside : stateOffset + 4 ≤ threadSize
  reason_inside : reasonOffset + 4 ≤ threadSize

/-! ### What is read of a record -/

/-- The state of a thread that waits. -/
abbrev THREAD_STATE_WAITING : ℕ := 5

/-- The reason it waits for when it is suspended. -/
abbrev WAIT_REASON_SUSPENDED : ℕ := 5

/-- The loop of `process_suspended` over the threads of a process. -/
def allSuspended (layout : ThreadLayout) (threads : ℕ) : List ℕ → Walk Bool
  | [] => .ok true
  | index :: rest => do
    let distance ← Checked.mul t.bound index layout.threadSize
    let base ← Checked.add t.bound threads distance
    let state ← readU32 t buf base layout.stateOffset
    if state ≠ THREAD_STATE_WAITING then .ok false
    else do
      let reason ← readU32 t buf base layout.reasonOffset
      if reason ≠ WAIT_REASON_SUSPENDED then .ok false else allSuspended layout threads rest

/-- Where the threads of a record begin and end, unless that is past the last `usize`. -/
def threadsOf (layout : ThreadLayout) (record threadCount : ℕ) : Option (ℕ × ℕ) := do
  let threads ← t.checkedAdd record layout.processSize
  let bytes ← t.checkedMul threadCount layout.threadSize
  let threadsEnd ← t.checkedAdd threads bytes
  some (threads, threadsEnd)

/-- A process is suspended only when it has at least one thread and every thread is waiting because
it is suspended. -/
def processSuspended (layout : ThreadLayout) (record recordEnd threadCount : ℕ) :
    Walk (Option Bool) :=
  if threadCount = 0 then .ok (some false)
  else
    match threadsOf t layout record threadCount with
    | none => .ok none
    | some (threads, threadsEnd) =>
      if recordEnd < threadsEnd ∨ buf.length < threadsEnd then .ok none
      else do
        let all ← allSuspended t buf layout threads (List.range threadCount)
        .ok (some all)

/-- Where the `IO_COUNTERS` of a record are, if the record reaches that far. -/
def ioCountersBase (pos recordEnd : ℕ) : Option ℕ := do
  let base ← t.checkedAdd pos (Offsets.get t).ioCounters
  let stop ← t.checkedAdd base IO_COUNTERS_BYTES
  if stop ≤ recordEnd then some base else none

/-- Sum of the three operation counts. -/
def readIoOperationCount (pos recordEnd : ℕ) : Walk (Option ℕ) :=
  match ioCountersBase t pos recordEnd with
  | none => .ok none
  | some base => do
    let read ← readI64 t buf base 0
    let write ← readI64 t buf base 8
    let other ← readI64 t buf base 16
    .ok (some (saturatingAdd (saturatingAdd (nonneg read) (nonneg write)) (nonneg other)))

/-- `ReadTransferCount` and `WriteTransferCount`. -/
def readIoTransferBytes (pos recordEnd : ℕ) : Walk (Option (ℕ × ℕ)) :=
  match ioCountersBase t pos recordEnd with
  | none => .ok none
  | some base => do
    let read ← readI64 t buf base 24
    let write ← readI64 t buf base 32
    .ok (some (nonneg read, nonneg write))

/-- The hard faults of a record that has room for them. -/
def readHardFaults (pos recordEnd : ℕ) : Walk (Option ℕ) := do
  let field ← Checked.add t.bound pos (Offsets.get t).hardFaults
  let stop ← Checked.add t.bound field 4
  if stop ≤ recordEnd then do
    let faults ← readU32 t buf pos (Offsets.get t).hardFaults
    .ok (some faults)
  else .ok none

/-- `char::is_control`. -/
def isControl (c : Char) : Bool :=
  decide (c.toNat < 0x20) || (decide (0x7F ≤ c.toNat) && decide (c.toNat < 0xA0))

/-- The first candidate location that holds a text without control characters. -/
def imageNameAt (written lenBytes : ℕ) : List ℕ → Walk Text
  | [] => .ok []
  | start :: candidates =>
    if written ≤ start ∨ written - start < lenBytes then imageNameAt written lenBytes candidates
    else do
      let stop ← Checked.add t.bound start lenBytes
      let bytes ← Checked.slice buf start stop
      let s := Text.fromUtf16Lossy bytes.utf16Units
      -- control characters would mean that the layout was misread
      if s.any isControl then imageNameAt written lenBytes candidates else .ok s

/-- Decode the image name of a record, in a buffer at the address `base`. -/
def parseImageName (base record written : ℕ) : Walk Text := do
  let off := Offsets.get t
  let field ← Checked.add t.bound record off.imageNameBuffer
  let stop ← Checked.add t.bound field t.usizeBytes
  if written < stop then .ok []
  else do
    let raw ← readUsize t buf record off.imageNameBuffer
    let len ← readU32 t buf record off.imageName
    let lenBytes := len % 2 ^ 16
    if raw = 0 ∨ lenBytes = 0 ∨ 512 < lenBytes ∨ lenBytes % 2 ≠ 0 ∨ written < lenBytes then .ok []
    else
      -- an absolute pointer into the buffer, an offset into it, or one from the record
      imageNameAt t buf written lenBytes
        [if base ≤ raw then some (raw - base) else none, some raw,
          t.checkedAdd record raw].reduceOption

/-- One process of the table, with the fields that the load does not use. -/
structure Entry extends ProcRaw where
  pid : ℕ
  basePriority : ℤ
  sessionId : ℕ

/-- The process of a record. -/
def readEntry (base written pos recordEnd : ℕ) : Walk Entry := do
  let off := Offsets.get t
  let threadCount ← readU32 t buf pos 4
  let workingSetPrivate ← readI64 t buf pos off.workingSetPrivate
  let createTime ← readI64 t buf pos off.createTime
  let user ← readI64 t buf pos off.userTime
  let kernel ← readI64 t buf pos off.kernelTime
  let pid ← readUsize t buf pos off.pid
  let basePriority ← readU32 t buf pos off.basePriority
  let sessionId ← readU32 t buf pos off.sessionId
  let handleCount ← readU32 t buf pos off.handleCount
  let peakWorkingSet ← readUsize t buf pos off.peakWorkingSet
  let workingSet ← readUsize t buf pos off.workingSet
  let commit ← readUsize t buf pos off.commit
  let hardFaults ← readHardFaults t buf pos recordEnd
  let ioOps ← readIoOperationCount t buf pos recordEnd
  let ioBytes ← readIoTransferBytes t buf pos recordEnd
  let name ← parseImageName t buf base pos written
  .ok
    { pid := pid % 2 ^ 32
      basePriority := (basePriority : ℤ).bmod (2 ^ 32)
      workingSetPrivate := nonneg workingSetPrivate
      ioReadBytes := ioBytes.map Prod.fst
      ioWriteBytes := ioBytes.map Prod.snd
      createTime, kernel, user, sessionId, handleCount, threadCount, workingSet, peakWorkingSet,
      commit, name, hardFaults, ioOps }

/-- The accumulated times are sound. -/
def Entry.Timed (e : Entry) : Prop := 0 ≤ e.kernel ∧ 0 ≤ e.user

instance (e : Entry) : Decidable e.Timed := inferInstanceAs (Decidable (_ ∧ _))

/-- A process of the table, and whether it is suspended. -/
structure Record where
  entry : Entry
  suspended : Option Bool

/-- What `query_procs` reads of one record. -/
def readRecord (layout : ThreadLayout) (base written pos recordEnd : ℕ) : Walk Record := do
  let entry ← readEntry t buf base written pos recordEnd
  -- the threads are looked at only for a process that is kept, and never for pid 0
  if entry.Timed ∧ entry.pid ≠ 0 then do
    let suspended ← processSuspended t buf layout pos recordEnd entry.threadCount
    .ok { entry, suspended }
  else .ok { entry, suspended := none }

/-- The maps that `query_procs` fills. -/
structure ProcTable where
  procs : OrdMap ℕ Entry := ∅
  /-- The suspended processes, with their creation times. -/
  suspended : OrdMap ℕ ℤ := ∅

/-- When a suspended process was created. -/
def Record.suspendedSince (r : Record) : Option ℤ :=
  if r.suspended = some true then filetimeToUnixSeconds r.entry.createTime else none

/-- A record with a negative time is passed over. -/
def ProcTable.add (table : ProcTable) (r : Record) : ProcTable :=
  if r.entry.Timed then
    { procs := table.procs.insert r.entry.pid r.entry
      suspended :=
        match r.suspendedSince with
        | some start => table.suspended.insert r.entry.pid start
        | none => table.suspended }
  else table

/-- What `process_tree_snapshot` reads of one record. -/
def readLink (pos : ℕ) : Walk TreeLink := do
  let off := Offsets.get t
  let pid ← readUsize t buf pos off.pid
  let parentPid ← readUsize t buf pos off.inheritedFrom
  let createTime ← readI64 t buf pos off.createTime
  .ok
    { pid := pid % 2 ^ 32
      parentPid := parentPid % 2 ^ 32
      createTime := if 0 ≤ createTime then UInt64.ofNat createTime.toNat else 0 }

/-! ### The walks -/

theorem Target.checkedAdd_eq_some_iff {t : Target} {a b n : ℕ} :
    t.checkedAdd a b = some n ↔ a + b < t.bound ∧ n = a + b := by
  unfold Target.checkedAdd
  rw [Option.ite_none_right_eq_some, Option.some.injEq, eq_comm (a := n)]

theorem Offsets.minSize_pos (t : Target) : 0 < (Offsets.get t).minSize := by
  cases t <;> decide

theorem Target.checkedMul_eq_some_iff {t : Target} {a b n : ℕ} :
    t.checkedMul a b = some n ↔ a * b < t.bound ∧ n = a * b := by
  unfold Target.checkedMul
  rw [Option.ite_none_right_eq_some, Option.some.injEq, eq_comm (a := n)]

/-- Where a record ends that is followed by another. -/
def recordEnd (written pos next : ℕ) : Option ℕ :=
  (t.checkedAdd pos next).filter fun stop => stop ≤ written

theorem recordEnd_eq_some_iff {t : Target} {written pos next stop : ℕ} :
    recordEnd t written pos next = some stop ↔
      pos + next < t.bound ∧ stop = pos + next ∧ stop ≤ written := by
  unfold recordEnd
  rw [Option.filter_eq_some_iff, Target.checkedAdd_eq_some_iff, decide_eq_true_iff, and_assoc]

-- the named conditions are for the proof that the loop ends
set_option linter.unusedVariables false in
/-- The loop of `query_procs`. -/
def queryProcsFrom (layout : ThreadLayout) (base written pos : ℕ) (table : ProcTable) :
    Walk (Option ProcTable) :=
  match hfixed : t.checkedAdd pos (Offsets.get t).minSize with
  | none => .ok none
  | some fixedEnd =>
    if hfits : written < fixedEnd then .ok (some table)
    else do
      let next ← readU32 t buf pos 0
      if next = 0 then do
        let r ← readRecord t buf layout base written pos written
        .ok (some (table.add r))
      else if hsize : (Offsets.get t).minSize ≤ next then
        match hend : recordEnd t written pos next with
        | none => .ok none
        | some stop => do
          let r ← readRecord t buf layout base written pos stop
          queryProcsFrom layout base written stop (table.add r)
      else .ok (some table)
termination_by written - pos
decreasing_by
  have hpos := Offsets.minSize_pos t
  obtain ⟨-, rfl⟩ := Target.checkedAdd_eq_some_iff.mp hfixed
  obtain ⟨-, rfl, hstop⟩ := recordEnd_eq_some_iff.mp hend
  omega

/-- `query_procs`, on what the kernel wrote: the first `written` bytes of a buffer at `base`. -/
def queryProcs (layout : ThreadLayout) (base written : ℕ) : Walk (Option ProcTable) :=
  queryProcsFrom t buf layout base written 0 {}

set_option linter.unusedVariables false in
/-- The loop of `process_tree_snapshot`. -/
def treeSnapshotFrom (written pos : ℕ) (out : List TreeLink) : Walk (Option (List TreeLink)) :=
  match hfixed : t.checkedAdd pos (Offsets.get t).minSize with
  | none => .ok none
  | some fixedEnd =>
    if hfits : written < fixedEnd then .ok none
    else do
      let link ← readLink t buf pos
      let next ← readU32 t buf pos 0
      if next = 0 then .ok (some (out ++ [link]))
      else if hsize : next < (Offsets.get t).minSize then .ok none
      else
        match hend : t.checkedAdd pos next with
        | none => .ok none
        | some stop => treeSnapshotFrom written stop (out ++ [link])
termination_by written - pos
decreasing_by
  have hpos := Offsets.minSize_pos t
  obtain ⟨-, rfl⟩ := Target.checkedAdd_eq_some_iff.mp hfixed
  obtain ⟨-, rfl⟩ := Target.checkedAdd_eq_some_iff.mp hend
  omega

/-- `process_tree_snapshot`, on what the kernel wrote. -/
def processTreeSnapshot (written : ℕ) : Walk (Option (List TreeLink)) :=
  treeSnapshotFrom t buf written 0 []

end Taskman.CpuLoad
