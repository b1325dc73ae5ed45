import Taskman.Binary.Parts
import Taskman.Platform.Broker.Actions
import Taskman.Platform.CpuLoad.Cores

/-!
# The thread table of one process

`NtQuerySystemInformation` fills a buffer with records of processes, each with the distance to the
next one and with its threads behind its fixed part.  `parse_process_threads` looks for one process
and decodes its threads; a record that does not hold the threads it announces is an error rather
than a short list.

* `ThreadInformation` : what the `windows` crate declares of processes and threads;
* `ThreadOffsets.get`, `parseProcessThreads` : the layout of an extended record and the parser;
* `decodeRecord` : the threads that a record announces, read from its own bytes;
* `parseFrom_of_recordAt` : one turn of the loop;
* `parseFrom_of_reached` : on any buffer the parser ends without a read outside it, with an error or
  with the threads of a record that matches and holds them all;
* `parseFrom_of_chain` : on a chain of records it returns those of the process, wherever it stands;
* `threads_parse` : **the two together**.
-/

namespace Taskman.ProcessThreads

open CpuLoad (Target Walk Offsets Chain readU32 readI64 readUsize filetimeToUnixSeconds)
open BrokeredActions (ThreadState ProcessThread)

/-- The computations of the parser. -/
abbrev Parse (α : Type) := Checked TmError α

/-- A read, which has no error of its own. -/
def walk {α : Type} : Walk α → Parse α
  | .ok a => .ok a
  | .error (.panic what) => .error (.panic what)

/-- What the `windows` crate declares: the size of a process record, and the fields of a plain
thread record, which lie inside it. -/
structure ThreadInformation (t : Target) where
  /-- `size_of::<SYSTEM_PROCESS_INFORMATION>()`. -/
  processSize : ℕ
  /-- `size_of::<SYSTEM_THREAD_INFORMATION>()`. -/
  size : ℕ
  reserved1 : ℕ
  clientId : ℕ
  priority : ℕ
  basePriority : ℕ
  reserved3 : ℕ
  threadState : ℕ
  waitReason : ℕ
  process_lt : processSize < 2 ^ 16
  reserved1_inside : reserved1 + 24 ≤ size
  clientId_inside : clientId + 2 * t.usizeBytes ≤ size
  priority_inside : priority + 4 ≤ size
  basePriority_inside : basePriority + 4 ≤ size
  reserved3_inside : reserved3 + 4 ≤ size
  threadState_inside : threadState + 4 ≤ size
  waitReason_inside : waitReason + 4 ≤ size

/-- Field offsets inside one extended thread record. -/
structure ThreadOffsets where
  size : ℕ
  kernelTime : ℕ
  userTime : ℕ
  createTime : ℕ
  tid : ℕ
  priority : ℕ
  basePriority : ℕ
  contextSwitches : ℕ
  state : ℕ
  waitReason : ℕ
  win32StartAddress : ℕ

/-- The extended record is the plain one and seven words, of which the third is the start address;
its size is a multiple of the alignment of its 64-bit fields. -/
def ThreadOffsets.get {t : Target} (info : ThreadInformation t) : ThreadOffsets where
  size := (info.size + 7 * t.usizeBytes + 7) / 8 * 8
  kernelTime := info.reserved1
  userTime := info.reserved1 + 8
  createTime := info.reserved1 + 16
  tid := info.clientId + t.usizeBytes
  priority := info.priority
  basePriority := info.basePriority
  contextSwitches := info.reserved3
  state := info.threadState
  waitReason := info.waitReason
  win32StartAddress := info.size + 2 * t.usizeBytes

/-- `ThreadState::from_raw`. -/
def threadStateOf : ℕ → ThreadState
  | 0 => .initialized
  | 1 => .ready
  | 2 => .running
  | 3 => .standby
  | 4 => .terminated
  | 5 => .waiting
  | 6 => .transition
  | 7 => .deferredReady
  | other => .other other

/-- A parsed thread plus its raw creation time. -/
structure ParsedThread where
  thread : ProcessThread
  createdRaw : ℤ
  deriving DecidableEq

/-- What a process table says of the threads of a process. -/
structure Parsed where
  processBasePriority : ℤ
  threads : List ParsedThread
  deriving DecidableEq

/-- `as i32`. -/
def asI32 (n : ℕ) : ℤ := (n : ℤ).bmod (2 ^ 32)

/-- `as i64`. -/
def asI64 (n : ℕ) : ℤ := (n : ℤ).bmod (2 ^ 64)

/-- The error for a process table that cannot be read. -/
def corrupt : TmError :=
  .platform "SystemExtendedProcessInformation".toList "process table did not parse".toList

section Parser

variable {t : Target} (info : ThreadInformation t) (buf : Bytes)

/-- The thread at a place of the table. -/
def parseThread (base : ℕ) : Parse ParsedThread := do
  let off := ThreadOffsets.get info
  let createdRaw ← walk (readI64 t buf base off.createTime)
  let start ← walk (readUsize t buf base off.win32StartAddress)
  let tid ← walk (readUsize t buf base off.tid)
  let priority ← walk (readU32 t buf base off.priority)
  let basePriority ← walk (readU32 t buf base off.basePriority)
  let contextSwitches ← walk (readU32 t buf base off.contextSwitches)
  let kernelTime ← walk (readI64 t buf base off.kernelTime)
  let userTime ← walk (readI64 t buf base off.userTime)
  let state ← walk (readU32 t buf base off.state)
  let waitReason ← walk (readU32 t buf base off.waitReason)
  .ok
    { thread :=
        { tid := tid % 2 ^ 32
          startAddress := if start ≠ 0 then some (UInt64.ofNat start) else none
          priority := asI32 priority
          basePriority := asI32 basePriority
          contextSwitches
          kernelTime100ns := CpuLoad.nonneg kernelTime
          userTime100ns := CpuLoad.nonneg userTime
          createdEpochS := filetimeToUnixSeconds createdRaw
          state := threadStateOf state
          waitReason
          cycles := none }
      createdRaw }

/-- Where a record ends: with the buffer if it is the last one. -/
def recordEnd (t : Target) (buf : Bytes) (pos next : ℕ) : Option ℕ :=
  if next = 0 then some buf.length
  else if (Offsets.get t).minSize ≤ next then
    (t.checkedAdd pos next).filter fun stop => stop ≤ buf.length
  else none

/-- The record of the process itself. -/
def parseRecord (pid : ℕ) (expected : Option ℤ) (pos stop : ℕ) : Parse Parsed := do
  let off := Offsets.get t
  let toff := ThreadOffsets.get info
  let createTime ← walk (readI64 t buf pos off.createTime)
  if expected.any fun expected => filetimeToUnixSeconds createTime ≠ some expected then
    .error (.error (.processNotFound pid))
  else
    let count ← walk (readU32 t buf pos 4)
    let first ← Checked.add t.bound pos info.processSize
    match (t.checkedMul count toff.size).bind (t.checkedAdd first) with
    | none => .error (.error corrupt)
    | some threadsEnd =>
      if stop < threadsEnd then .error (.error corrupt)
      else
        let threads ← (List.range count).mapM fun index => do
          let distance ← Checked.mul t.bound index toff.size
          let base ← Checked.add t.bound first distance
          parseThread info buf base
        let basePriority ← walk (readU32 t buf pos off.basePriority)
        .ok { processBasePriority := asI32 basePriority, threads }

theorem recordEnd_eq_some_iff {pos next stop : ℕ} :
    recordEnd t buf pos next = some stop ↔
      next = 0 ∧ stop = buf.length ∨
        next ≠ 0 ∧ (Offsets.get t).minSize ≤ next ∧ pos + next < t.bound ∧ stop = pos + next ∧
          stop ≤ buf.length := by
  unfold recordEnd
  split_ifs with hlast hsize
  · simp [hlast, eq_comm]
  · rw [Option.filter_eq_some_iff, CpuLoad.Target.checkedAdd_eq_some_iff, decide_eq_true_iff]
    simp [hlast, hsize, and_assoc]
  · simp [hlast, hsize]

-- the named conditions are for the proof that the loop ends
set_option linter.unusedVariables false in
/-- The loop over the records. -/
def parseFrom (pid : ℕ) (expected : Option ℤ) (pos : ℕ) : Parse Parsed :=
  match hfixed : t.checkedAdd pos (Offsets.get t).minSize with
  | none => .error (.error corrupt)
  | some fixedEnd =>
    if hfits : buf.length < fixedEnd then .error (.error corrupt)
    else do
      let next ← walk (readU32 t buf pos 0)
      match hend : recordEnd t buf pos next with
      | none => .error (.error corrupt)
      | some stop => do
        let rawPid ← walk (readUsize t buf pos (Offsets.get t).pid)
        if rawPid % 2 ^ 32 = pid then parseRecord info buf pid expected pos stop
        else if hlast : next = 0 then .error (.error (.processNotFound pid))
        else parseFrom pid expected stop
termination_by buf.length - pos
decreasing_by
  have hpos := CpuLoad.Offsets.minSize_pos t
  obtain ⟨-, rfl⟩ := CpuLoad.Target.checkedAdd_eq_some_iff.mp hfixed
  obtain ⟨hzero, -⟩ | ⟨-, hsize, -, rfl, hstop⟩ := (recordEnd_eq_some_iff buf).mp hend
  · exact absurd hzero hlast
  · omega

/-- `parse_process_threads`. -/
def parseProcessThreads (pid : ℕ) (expectedStartEpochS : Option ℤ) : Parse Parsed :=
  parseFrom info buf pid expectedStartEpochS 0

end Parser

/-! ### What a record says -/

section Decode

variable {t : Target} (info : ThreadInformation t)

/-- The distance to the next record. -/
def nextOf (record : Bytes) : ℕ := record.leAt 0 4

/-- How many threads a record announces. -/
def announced (record : Bytes) : ℕ := record.leAt 4 4

/-- The pid of a record. -/
def pidOf (t : Target) (record : Bytes) : ℕ :=
  record.leAt (Offsets.get t).pid t.usizeBytes % 2 ^ 32

/-- The creation second. -/
def createdOf (t : Target) (record : Bytes) : Option ℤ :=
  filetimeToUnixSeconds (asI64 (record.leAt (Offsets.get t).createTime 8))

/-- A thread, read from the bytes of its record. -/
def decodeThread (bs : Bytes) : ParsedThread :=
  let off := ThreadOffsets.get info
  let createdRaw := asI64 (bs.leAt off.createTime 8)
  let start := bs.leAt off.win32StartAddress t.usizeBytes
  { thread :=
      { tid := bs.leAt off.tid t.usizeBytes % 2 ^ 32
        startAddress := if start ≠ 0 then some (UInt64.ofNat start) else none
        priority := asI32 (bs.leAt off.priority 4)
        basePriority := asI32 (bs.leAt off.basePriority 4)
        contextSwitches := bs.leAt off.contextSwitches 4
        kernelTime100ns := CpuLoad.nonneg (asI64 (bs.leAt off.kernelTime 8))
        userTime100ns := CpuLoad.nonneg (asI64 (bs.leAt off.userTime 8))
        createdEpochS := filetimeToUnixSeconds createdRaw
        state := threadStateOf (bs.leAt off.state 4)
        waitReason := bs.leAt off.waitReason 4
        cycles := none }
    createdRaw }

/-- Where the threads of a record end, from its beginning. -/
def threadsEnd (record : Bytes) : ℕ :=
  info.processSize + announced record * (ThreadOffsets.get info).size

/-- The threads that a record announces, in order, each read from its own bytes of the record. -/
def decodeRecord (record : Bytes) : Parsed where
  processBasePriority := asI32 (record.leAt (Offsets.get t).basePriority 4)
  threads := (List.range (announced record)).map fun index =>
    decodeThread info (record.part (info.processSize + index * (ThreadOffsets.get info).size)
      (ThreadOffsets.get info).size)

theorem length_threads_decodeRecord (record : Bytes) :
    (decodeRecord info record).threads.length = announced record := by
  rw [decodeRecord, List.length_map, List.length_range]

/-- The record is of the process that is looked for. -/
def Matches (t : Target) (record : Bytes) (pid : ℕ) (expected : Option ℤ) : Prop :=
  pidOf t record = pid ∧ ∀ second, expected = some second → createdOf t record = some second

end Decode

/-! ### Reads of a record -/

section Reads

variable {t : Target} {info : ThreadInformation t} {buf : Bytes} {pos len field : ℕ}
  (hlen : pos + len ≤ buf.length) (hbound : buf.length < t.bound)

include hlen hbound

theorem readU32_part (hfield : field + 4 ≤ len) :
    readU32 t buf pos field = .ok ((buf.part pos len).leAt field 4) := by
  have hadd : (Checked.add t.bound pos field : Walk ℕ) = .ok (pos + field) := if_pos (by omega)
  rw [readU32, hadd, Checked.bind_ok, Checked.readLe_eq_leAt (by omega) (by omega),
    Bytes.leAt_part hfield]

theorem readI64_part (hfield : field + 8 ≤ len) :
    readI64 t buf pos field = .ok (asI64 ((buf.part pos len).leAt field 8)) := by
  have hadd : (Checked.add t.bound pos field : Walk ℕ) = .ok (pos + field) := if_pos (by omega)
  rw [readI64, hadd, Checked.bind_ok, Checked.readLe_eq_leAt (by omega) (by omega),
    Bytes.leAt_part hfield]
  rfl

theorem readUsize_part (hfield : field + t.usizeBytes ≤ len) :
    readUsize t buf pos field = .ok ((buf.part pos len).leAt field t.usizeBytes) := by
  have hadd : (Checked.add t.bound pos field : Walk ℕ) = .ok (pos + field) := if_pos (by omega)
  rw [readUsize, hadd, Checked.bind_ok, Checked.readLe_eq_leAt (by omega) (by omega),
    Bytes.leAt_part hfield]

omit hlen hbound in
theorem walk_ok {α : Type} (a : α) : walk (.ok a : Walk α) = .ok a := rfl

end Reads

section Thread

variable {t : Target} {info : ThreadInformation t} {buf : Bytes} {base : ℕ}

/-- The fields of an extended thread record lie inside it. -/
structure ThreadOffsets.Inside (t : Target) (off : ThreadOffsets) : Prop where
  kernelTime : off.kernelTime + 8 ≤ off.size
  userTime : off.userTime + 8 ≤ off.size
  createTime : off.createTime + 8 ≤ off.size
  tid : off.tid + t.usizeBytes ≤ off.size
  priority : off.priority + 4 ≤ off.size
  basePriority : off.basePriority + 4 ≤ off.size
  contextSwitches : off.contextSwitches + 4 ≤ off.size
  state : off.state + 4 ≤ off.size
  waitReason : off.waitReason + 4 ≤ off.size
  win32StartAddress : off.win32StartAddress + t.usizeBytes ≤ off.size

theorem ThreadOffsets.inside (info : ThreadInformation t) :
    (ThreadOffsets.get info).Inside t := by
  have hreserved1 := info.reserved1_inside
  have hclientId := info.clientId_inside
  have hpriority := info.priority_inside
  have hbasePriority := info.basePriority_inside
  have hreserved3 := info.reserved3_inside
  have hthreadState := info.threadState_inside
  have hwaitReason := info.waitReason_inside
  constructor <;> dsimp only [ThreadOffsets.get] <;> omega

/-- A thread whose record lies in the buffer is read from that record. -/
theorem parseThread_eq (hfits : base + (ThreadOffsets.get info).size ≤ buf.length)
    (hbound : buf.length < t.bound) :
    parseThread info buf base =
      .ok (decodeThread info (buf.part base (ThreadOffsets.get info).size)) := by
  have hin := ThreadOffsets.inside info
  unfold parseThread
  dsimp only
  rw [readI64_part hfits hbound hin.createTime, walk_ok, Checked.bind_ok,
    readUsize_part hfits hbound hin.win32StartAddress, walk_ok, Checked.bind_ok,
    readUsize_part hfits hbound hin.tid, walk_ok, Checked.bind_ok,
    readU32_part hfits hbound hin.priority, walk_ok, Checked.bind_ok,
    readU32_part hfits hbound hin.basePriority, walk_ok, Checked.bind_ok,
    readU32_part hfits hbound hin.contextSwitches, walk_ok, Checked.bind_ok,
    readI64_part hfits hbound hin.kernelTime, walk_ok, Checked.bind_ok,
    readI64_part hfits hbound hin.userTime, walk_ok, Checked.bind_ok,
    readU32_part hfits hbound hin.state, walk_ok, Checked.bind_ok,
    readU32_part hfits hbound hin.waitReason, walk_ok, Checked.bind_ok]
  rfl

/-! ### The record of the process -/

variable {pos stop pid : ℕ} {expected : Option ℤ}

/-- What the parser makes of a record with the pid. -/
def resultOf (info : ThreadInformation t) (record : Bytes) (pid : ℕ) (expected : Option ℤ) :
    Except TmError Parsed :=
  if expected.any fun expected => createdOf t record ≠ some expected then
    .error (.processNotFound pid)
  else if record.length < threadsEnd info record then .error corrupt
  else .ok (decodeRecord info record)

/-- The threads of a record that holds them are read from it, in order. -/
theorem mapM_parseThread (info : ThreadInformation t) {record : Bytes}
    (hrecord : record = buf.part pos record.length) (hfits : pos + record.length ≤ buf.length)
    (hbound : buf.length < t.bound) (hthreads : threadsEnd info record ≤ record.length) :
    ((List.range (announced record)).mapM fun index => do
        let distance ← Checked.mul t.bound index (ThreadOffsets.get info).size
        let base ← Checked.add t.bound (pos + info.processSize) distance
        parseThread info buf base) = .ok (decodeRecord info record).threads := by
  refine Checked.mapM_eq_ok_of fun index hindex => ?_
  have hslot := CpuLoad.slot_fits hindex
    (le_refl (announced record * (ThreadOffsets.get info).size))
  unfold threadsEnd at hthreads
  have hmul : (Checked.mul t.bound index (ThreadOffsets.get info).size : Parse ℕ) =
      .ok (index * (ThreadOffsets.get info).size) := if_pos (by omega)
  have hadd : (Checked.add t.bound (pos + info.processSize)
      (index * (ThreadOffsets.get info).size) : Parse ℕ) =
      .ok (pos + info.processSize + index * (ThreadOffsets.get info).size) := if_pos (by omega)
  rw [hmul, Checked.bind_ok, hadd, Checked.bind_ok, parseThread_eq (by omega) hbound]
  conv_rhs => rw [hrecord]
  rw [Bytes.part_part (by omega), Nat.add_assoc]

/-- The end of the threads, unless a `usize` does not hold it. -/
theorem bind_checkedMul_eq (t : Target) (first count size : ℕ) :
    (t.checkedMul count size).bind (t.checkedAdd first) =
      if first + count * size < t.bound then some (first + count * size) else none := by
  unfold Target.checkedMul
  split_ifs with hmul hadd hadd
  · exact if_pos hadd
  · exact if_neg hadd
  · omega
  · rfl

/-- A record with the pid is judged by its own bytes. -/
theorem parseRecord_eq (hstop : stop ≤ buf.length) (hfits : pos + (Offsets.get t).minSize ≤ stop)
    (hbound : buf.length < t.bound / 2) :
    parseRecord info buf pid expected pos stop =
      Checked.ofExcept (resultOf info (buf.part pos (stop - pos)) pid expected) := by
  obtain ⟨record, hdef⟩ : ∃ record, record = buf.part pos (stop - pos) := ⟨_, rfl⟩
  have hfixed := CpuLoad.Offsets.fixed t
  have hthreads := hfixed.threads
  have hcreate := hfixed.createTime
  have hpriority := hfixed.basePriority
  have hsize := info.process_lt
  have hlarge := t.le_bound
  have hlen : pos + (stop - pos) ≤ buf.length := by omega
  have hlt : buf.length < t.bound := by omega
  have hrecord : record.length = stop - pos := by rw [hdef, Bytes.length_part hlen]
  have hfirst : (Checked.add t.bound pos info.processSize : Parse ℕ) =
      .ok (pos + info.processSize) := if_pos (by omega)
  unfold parseRecord
  dsimp only
  rw [readI64_part hlen hlt (by omega), walk_ok, Checked.bind_ok, resultOf, ← hdef]
  change (if (expected.any fun second => createdOf t record ≠ some second) = true then _ else _) = _
  split_ifs with hsecond hshort
  · rfl
  · -- the threads end past the record, or past the last `usize`
    rw [readU32_part hlen hlt (by omega), walk_ok, Checked.bind_ok, hfirst, Checked.bind_ok,
      bind_checkedMul_eq, ← hdef]
    change record.length < info.processSize + record.leAt 4 4 * _ at hshort
    split_ifs with hend
    · exact if_pos (by omega)
    · rfl
  · rw [readU32_part hlen hlt (by omega), walk_ok, Checked.bind_ok, hfirst, Checked.bind_ok,
      bind_checkedMul_eq, ← hdef]
    rw [Nat.not_lt] at hshort
    have hmap := mapM_parseThread info (hrecord ▸ hdef) (by omega) hlt hshort
    change info.processSize + record.leAt 4 4 * _ ≤ record.length at hshort
    rw [if_pos (by omega)]
    change (if _ < _ then _ else _) = _
    rw [if_neg (by omega)]
    refine Checked.bind_eq_ok.mpr ⟨_, hmap, ?_⟩
    rw [readU32_part hlen hlt (by omega), walk_ok, Checked.bind_ok, ← hdef]
    rfl

end Thread

/-! ### The walk -/

section Walk

variable {t : Target} {info : ThreadInformation t} {buf : Bytes} {pos pid : ℕ} {expected : Option ℤ}

/-- The bytes of a record, from where it begins to where it ends. -/
def recordOf (buf : Bytes) (span : ℕ × ℕ) : Bytes := buf.part span.1 (span.2 - span.1)

/-- A record stands here: its fixed part is in the buffer and so is its end. -/
structure RecordAt (t : Target) (buf : Bytes) (span : ℕ × ℕ) : Prop where
  fits : span.1 + (Offsets.get t).minSize ≤ buf.length
  ends : recordEnd t buf span.1 (buf.leAt span.1 4) = some span.2

/-- The distances lead from the beginning of the buffer to this place. -/
inductive Reached (t : Target) (buf : Bytes) : ℕ → Prop
  | first : Reached t buf 0
  | next {span : ℕ × ℕ} (h : Reached t buf span.1) (hrecord : RecordAt t buf span)
      (hnext : nextOf (recordOf buf span) ≠ 0) : Reached t buf span.2

theorem RecordAt.stop_le {span : ℕ × ℕ} (h : RecordAt t buf span) :
    span.1 + (Offsets.get t).minSize ≤ span.2 ∧ span.2 ≤ buf.length := by
  obtain ⟨hfits, hend⟩ := h
  obtain ⟨-, hstop⟩ | ⟨-, hsize, -, hstop, hle⟩ := (recordEnd_eq_some_iff buf).mp hend
  · exact ⟨hstop ▸ hfits, hstop.le⟩
  · exact ⟨by omega, hle⟩

/-- The loop where the fixed part of a record fits. -/
theorem parseFrom_of_fits (hfits : pos + (Offsets.get t).minSize ≤ buf.length)
    (hbound : buf.length < t.bound) :
    parseFrom info buf pid expected pos =
      match recordEnd t buf pos (buf.leAt pos 4) with
      | none => .error (.error corrupt)
      | some stop =>
        if buf.leAt (pos + (Offsets.get t).pid) t.usizeBytes % 2 ^ 32 = pid then
          parseRecord info buf pid expected pos stop
        else if buf.leAt pos 4 = 0 then .error (.error (.processNotFound pid))
        else parseFrom info buf pid expected stop := by
  have hfixed := CpuLoad.Offsets.fixed t
  have hnext := hfixed.next
  have hnextRead : readU32 t buf pos 0 = .ok (buf.leAt pos 4) := by
    rw [readU32_part hfits hbound (by omega), Bytes.leAt_part (by omega), Nat.add_zero]
  have hpidRead : readUsize t buf pos (Offsets.get t).pid =
      .ok (buf.leAt (pos + (Offsets.get t).pid) t.usizeBytes) := by
    rw [readUsize_part hfits hbound hfixed.pid, Bytes.leAt_part hfixed.pid]
  have hadd : t.checkedAdd pos (Offsets.get t).minSize = some (pos + (Offsets.get t).minSize) :=
    if_pos (by omega)
  rw [parseFrom]
  split
  · rename_i hnone
    rw [hadd] at hnone
    cases hnone
  · rename_i fixedEnd hsome
    rw [hadd] at hsome
    obtain rfl := Option.some.inj hsome
    rw [dif_neg (by omega), hnextRead, walk_ok, Checked.bind_ok]
    split
    · rename_i hend
      rw [hend]
    · rename_i stop hend
      rw [hend, hpidRead, walk_ok, Checked.bind_ok]
      rfl

theorem leAt_recordOf {span : ℕ × ℕ} (h : RecordAt t buf span) {offset width : ℕ}
    (hinside : offset + width ≤ (Offsets.get t).minSize) :
    (recordOf buf span).leAt offset width = buf.leAt (span.1 + offset) width := by
  have hstop := h.stop_le
  exact Bytes.leAt_part (by omega)

/-- One turn of the loop: a record is judged if it has the pid, and passed over otherwise. -/
theorem parseFrom_of_recordAt {span : ℕ × ℕ} (h : RecordAt t buf span)
    (hbound : buf.length < t.bound / 2) :
    parseFrom info buf pid expected span.1 =
      if pidOf t (recordOf buf span) = pid then
        Checked.ofExcept (resultOf info (recordOf buf span) pid expected)
      else if nextOf (recordOf buf span) = 0 then .error (.error (.processNotFound pid))
      else parseFrom info buf pid expected span.2 := by
  have hfixed := CpuLoad.Offsets.fixed t
  have hstop := h.stop_le
  rw [parseFrom_of_fits h.fits (by omega), h.ends, pidOf, nextOf, leAt_recordOf h hfixed.pid,
    leAt_recordOf h (by have := hfixed.next; omega), Nat.add_zero]
  dsimp only
  rw [parseRecord_eq hstop.2 hstop.1 hbound, recordOf]

/-- Where no record stands, the table is corrupt. -/
theorem parseFrom_of_not_recordAt (h : ∀ stop, ¬ RecordAt t buf (pos, stop))
    (hbound : buf.length < t.bound) :
    parseFrom info buf pid expected pos = .error (.error corrupt) := by
  by_cases hfits : pos + (Offsets.get t).minSize ≤ buf.length
  · rw [parseFrom_of_fits hfits hbound]
    cases hend : recordEnd t buf pos (buf.leAt pos 4) with
    | none => rfl
    | some stop => exact absurd ⟨hfits, hend⟩ (h stop)
  · rw [parseFrom]
    split
    · rfl
    · rename_i fixedEnd hsome
      obtain ⟨-, rfl⟩ := CpuLoad.Target.checkedAdd_eq_some_iff.mp hsome
      exact dif_pos (by omega)

/-- What is made of a record with the pid is an error, or its threads. -/
theorem resultOf_cases (info : ThreadInformation t) (record : Bytes) (pid : ℕ)
    (expected : Option ℤ) :
    (∃ e, resultOf info record pid expected = .error e) ∨
      (∀ second, expected = some second → createdOf t record = some second) ∧
        threadsEnd info record ≤ record.length ∧
        resultOf info record pid expected = .ok (decodeRecord info record) := by
  unfold resultOf
  split_ifs with hsecond hshort
  · exact Or.inl ⟨_, rfl⟩
  · exact Or.inl ⟨_, rfl⟩
  · refine Or.inr ⟨?_, not_lt.mp hshort, rfl⟩
    rintro second rfl
    rwa [Option.any_some, decide_eq_true_iff, not_not] at hsecond

theorem resultOf_of_matches {record : Bytes} (h : Matches t record pid expected)
    (hthreads : threadsEnd info record ≤ record.length) :
    resultOf info record pid expected = .ok (decodeRecord info record) := by
  rw [resultOf, if_neg, if_neg (by omega)]
  intro hany
  obtain ⟨second, hexpected, hne⟩ := (Option.any_eq_true _ _).mp hany
  exact of_decide_eq_true hne (h.2 second hexpected)

theorem leAt_of_readU32 {next : ℕ} (hfits : pos + (Offsets.get t).minSize ≤ buf.length)
    (hbound : buf.length < t.bound) (hnext : readU32 t buf pos 0 = .ok next) :
    buf.leAt pos 4 = next := by
  have hinside := (CpuLoad.Offsets.fixed t).next
  rw [readU32_part hfits hbound (by omega), Bytes.leAt_part (by omega), Nat.add_zero] at hnext
  exact Except.ok.inj hnext

/-- What the parser returns is an error of its own, or the threads of a record that the distances
lead to. -/
theorem parseFrom_of_reached (info : ThreadInformation t) (pid : ℕ) (expected : Option ℤ)
    (h : Reached t buf pos) (hbound : buf.length < t.bound / 2) :
    (∃ e, parseFrom info buf pid expected pos = .error (.error e)) ∨
      ∃ span, Reached t buf span.1 ∧ RecordAt t buf span ∧
        Matches t (recordOf buf span) pid expected ∧
        threadsEnd info (recordOf buf span) ≤ (recordOf buf span).length ∧
        parseFrom info buf pid expected pos = .ok (decodeRecord info (recordOf buf span)) := by
  -- induction on how far the end of the buffer is
  induction hfar : buf.length - pos using Nat.strong_induction_on generalizing pos with
  | _ far ih =>
    subst hfar
    by_cases hat : ∃ stop, RecordAt t buf (pos, stop)
    · obtain ⟨stop, hat⟩ := hat
      have hstop := hat.stop_le
      have hmin := CpuLoad.Offsets.minSize_pos t
      rw [parseFrom_of_recordAt hat hbound]
      split_ifs with hpid hlast
      · obtain ⟨e, he⟩ | ⟨hsecond, hthreads, hresult⟩ :=
          resultOf_cases info (recordOf buf (pos, stop)) pid expected
        · exact Or.inl ⟨e, by rw [he]; rfl⟩
        · exact Or.inr ⟨(pos, stop), h, hat, ⟨hpid, hsecond⟩, hthreads, by rw [hresult]; rfl⟩
      · exact Or.inl ⟨_, rfl⟩
      · exact ih _ (by dsimp only at hstop ⊢; omega) (h.next hat hlast) rfl
    · exact Or.inl ⟨_, parseFrom_of_not_recordAt (not_exists.mp hat) (by omega)⟩

/-- On a chain of records with different pids, the record of the process is found wherever it
stands. -/
theorem parseFrom_of_chain {spans : List (ℕ × ℕ)} (h : Chain t buf buf.length pos spans)
    (hbound : buf.length < t.bound / 2)
    (hpids : (spans.map fun span => pidOf t (recordOf buf span)).Nodup) {span : ℕ × ℕ}
    (hspan : span ∈ spans) (hmatch : Matches t (recordOf buf span) pid expected)
    (hthreads : threadsEnd info (recordOf buf span) ≤ (recordOf buf span).length) :
    parseFrom info buf pid expected pos = .ok (decodeRecord info (recordOf buf span)) := by
  have hlt : buf.length < t.bound := by omega
  induction h with
  | @last pos hfits hnext =>
    obtain rfl := List.mem_singleton.mp hspan
    have hat : RecordAt t buf (pos, buf.length) := by
      refine ⟨hfits, (recordEnd_eq_some_iff buf).mpr (Or.inl ⟨?_, rfl⟩)⟩
      exact leAt_of_readU32 hfits hlt hnext
    rw [parseFrom_of_recordAt hat hbound, if_pos hmatch.1, resultOf_of_matches hmatch hthreads]
    rfl
  | @step pos next spans hfits hnext hsize hrest ih =>
    have hmin := CpuLoad.Offsets.minSize_pos t
    have hfitsRest := hrest.fits
    have hnextAt : buf.leAt pos 4 = next := leAt_of_readU32 hfits hlt hnext
    have hat : RecordAt t buf (pos, pos + next) := by
      refine ⟨hfits, (recordEnd_eq_some_iff buf).mpr (Or.inr ?_)⟩
      rw [hnextAt]
      exact ⟨by omega, hsize, by omega, rfl, by omega⟩
    rw [List.map_cons, List.nodup_cons] at hpids
    rw [parseFrom_of_recordAt hat hbound]
    obtain rfl | hspan := List.mem_cons.mp hspan
    · rw [if_pos hmatch.1, resultOf_of_matches hmatch hthreads]
      rfl
    · have hother : pidOf t (recordOf buf (pos, pos + next)) ≠ pid := fun heq =>
        hpids.1 (List.mem_map.mpr ⟨span, hspan, hmatch.1.trans heq.symm⟩)
      have hmore : nextOf (recordOf buf (pos, pos + next)) ≠ 0 := by
        rw [nextOf, leAt_recordOf hat (by have := (CpuLoad.Offsets.fixed t).next; omega),
          Nat.add_zero, hnextAt]
        omega
      rw [if_neg hother, if_neg hmore]
      exact ih hpids.2 hspan

end Walk

/-! ### The table of one process -/

/-- A chain of records with different pids, each with the threads that it announces. -/
structure WellFormed {t : Target} (info : ThreadInformation t) (buf : Bytes)
    (spans : List (ℕ × ℕ)) : Prop where
  chain : Chain t buf buf.length 0 spans
  threads : ∀ span ∈ spans, threadsEnd info (recordOf buf span) ≤ (recordOf buf span).length
  pids : (spans.map fun span => pidOf t (recordOf buf span)).Nodup

theorem threadState_inside64 : 68 + 4 ≤ 80 := by decide

theorem waitReason_inside64 : 72 + 4 ≤ 80 := by decide

/-- The layout where pointers have 64 bits. -/
def information64 : ThreadInformation .bits64 where
  processSize := 256
  size := 80
  reserved1 := 0
  clientId := 40
  priority := 56
  basePriority := 60
  reserved3 := 64
  threadState := 68
  waitReason := 72
  process_lt := by decide
  reserved1_inside := by decide
  clientId_inside := by decide
  priority_inside := by decide
  basePriority_inside := by decide
  reserved3_inside := by decide
  threadState_inside := threadState_inside64
  waitReason_inside := waitReason_inside64

/-- A waiting thread. -/
def sampleThread (tid : ℕ) : Bytes :=
  List.replicate 48 0 ++ Bytes.toLe 8 tid ++ List.replicate 8 0 ++ Bytes.toLe 4 (tid * 10) ++
    Bytes.toLe 4 5 ++ List.replicate 24 0 ++ Bytes.toLe 8 0x7FF00000 ++ List.replicate 32 0

/-- The fixed part of a process that was created at the beginning of 2024. -/
def sampleProcess (next count pid : ℕ) : Bytes :=
  Bytes.toLe 4 next ++ Bytes.toLe 4 count ++ List.replicate 24 0 ++
    Bytes.toLe 8 133485408000000000 ++ List.replicate 32 0 ++ Bytes.toLe 4 8 ++
    List.replicate 4 0 ++ Bytes.toLe 8 pid ++ List.replicate 168 0

/-- A process without threads, and one with two. -/
def sampleTable : Bytes :=
  sampleProcess 256 0 7 ++ sampleProcess 0 2 42 ++ sampleThread 7 ++ sampleThread 9

theorem chain_sampleTable :
    Chain .bits64 sampleTable sampleTable.length 0 [(0, 256), (256, 784)] := by
  have hlength : sampleTable.length = 784 := by decide +kernel
  rw [hlength]
  have hfirst : readU32 .bits64 sampleTable 0 0 = .ok 256 := by decide +kernel
  refine .step (by decide +kernel) hfirst (by decide) (.last ?_ ?_) <;> decide +kernel

theorem wellFormed_sampleTable : WellFormed information64 sampleTable [(0, 256), (256, 784)] where
  chain := chain_sampleTable
  threads := by decide +kernel
  pids := by decide +kernel

/-- **The threads of one process.**  On any buffer the parser ends without a read outside it and
without an overflow.  It returns an error, or what a record of the table that matches announces: as
many threads as it says, all of which it holds.  On a well-formed chain it returns the threads of
the process, in order, wherever its record stands. -/
theorem threads_parse {t : Target} (info : ThreadInformation t) {buf : Bytes}
    (hbound : buf.length < t.bound / 2) (pid : ℕ) (expected : Option ℤ) :
    ((∃ e, parseProcessThreads info buf pid expected = .error (.error e)) ∨
      ∃ span, Reached t buf span.1 ∧ RecordAt t buf span ∧
        Matches t (recordOf buf span) pid expected ∧
        threadsEnd info (recordOf buf span) ≤ (recordOf buf span).length ∧
        (decodeRecord info (recordOf buf span)).threads.length = announced (recordOf buf span) ∧
        parseProcessThreads info buf pid expected =
          .ok (decodeRecord info (recordOf buf span))) ∧
      ∀ spans, WellFormed info buf spans → ∀ span ∈ spans,
        Matches t (recordOf buf span) pid expected →
          parseProcessThreads info buf pid expected =
            .ok (decodeRecord info (recordOf buf span)) := by
  constructor
  · obtain herror | ⟨span, hreached, hat, hmatch, hthreads, hparse⟩ :=
      parseFrom_of_reached info pid expected (Reached.first : Reached t buf 0) hbound
    · exact Or.inl herror
    · exact Or.inr ⟨span, hreached, hat, hmatch, hthreads, length_threads_decodeRecord info _,
        hparse⟩
  · intro spans h span hspan hmatch
    exact parseFrom_of_chain h.chain hbound h.pids hspan hmatch (h.threads span hspan)

theorem threads_parse_sampleTable :
    parseProcessThreads information64 sampleTable 42 (some 1704067200) =
        .ok (decodeRecord information64 (recordOf sampleTable (256, 784))) ∧
      (decodeRecord information64 (recordOf sampleTable (256, 784))).threads.map
          (fun parsed => (parsed.thread.tid, parsed.thread.contextSwitches)) =
        [(7, 70), (9, 90)] := by
  have hmatch : Matches .bits64 (recordOf sampleTable (256, 784)) 42 (some 1704067200) :=
    ⟨by decide +kernel, fun second hsecond => by cases hsecond; decide +kernel⟩
  exact ⟨(threads_parse information64 (by decide +kernel) 42 _).2 _ wellFormed_sampleTable _
    (by decide) hmatch, by decide +kernel⟩

end Taskman.ProcessThreads
