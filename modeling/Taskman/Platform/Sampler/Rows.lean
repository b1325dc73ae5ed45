import Taskman.LTS.Machine
import Taskman.Platform.CpuLoad.Accountant

/-!
# Which process a row's kernel values belong to

A tick first takes a load sample, or holds the previous one, and then enumerates the processes.  The
values of the newest table are looked up by pid and creation time; those of the load sample by pid
alone.

* `isZombie`, `processRow` : one row of the enumeration;
* `SamplerTrace` : the sampler, with the table that its load sample was built from;
* `SamplerTrace.OwnValues` : the rows are those that lookups by pid and creation time would give;
* `SamplerTrace.Identified` : every record the load sample has for a row is of the row's process;
* `own_values_iff` : **the rows of a run show their own values, exactly when each tick is
  identified.**
-/

namespace Taskman.Sampler

open CpuLoad

/-! ### One row -/

/-- What `sysinfo` knows about one process. -/
structure SysProcess where
  pid : ℕ
  name : Text
  parent : Option ℕ := none
  /-- Zero where no handle can be opened. -/
  startTime : ℕ := 0
  status : ProcStatus := .running
  memory : ℕ := 0
  virtualMemory : ℕ := 0
  readBytes : ℕ := 0
  writtenBytes : ℕ := 0
  totalReadBytes : ℕ := 0
  totalWrittenBytes : ℕ := 0

/-- One tick: what the kernel answers first, and what the enumeration then finds. -/
structure RowTick where
  answers : Answers
  processes : List SysProcess
  /-- The time the rows are made at, in ms and in seconds of the calendar. -/
  now : ℕ
  nowS : ℤ
  interval : ℚ
  /-- Whether the process behind a pid is signaled or has an exit code. -/
  terminated : ℕ → Bool
  /-- Whether a window has not pumped for long enough. -/
  hung : ℕ → Bool
  /-- The handle count that a process handle gives. -/
  handles : ℕ → Option ℤ → Option ℕ

/-- Whether a process that is still enumerated has gone away. -/
def isZombie (pid : ℕ) (threads : Option ℕ) (startEpochS : Option ℤ) (nowS : ℤ)
    (terminated live : Bool) : Bool :=
  if pid ≤ 4 then false
  else
    match threads with
    | some n => n == 0
    | none =>
      if terminated then true
      -- a process created after the table was read is missing from it
      else if !live then !startEpochS.any fun start => decide (|nowS - start| ≤ 2)
      else false

/-- The creation time of a row, unknown rather than zero. -/
def startEpoch (cpuLoad : Accountant) (p : SysProcess) : Option ℤ :=
  if 0 < p.startTime then some p.startTime else cpuLoad.startEpochOf p.pid

/-- A process has ended, though it is still listed. -/
def isDead (cpuLoad : Accountant) (t : RowTick) (p : SysProcess) : Bool :=
  let start := startEpoch cpuLoad p
  isZombie p.pid (cpuLoad.threadCountOf p.pid start) start t.nowS (t.terminated p.pid)
    (cpuLoad.isProcessLive t.now p.pid start)

/-- A row, given what the load sample lists for its process.  The fields that no table feeds are
left out. -/
def processRow (cpuLoad : Accountant) (t : RowTick) (p : SysProcess) (pc : Option ProcCpu) :
    ProcessEntry :=
  let start := startEpoch cpuLoad p
  let wsTotal :=
    (cpuLoad.workingSetOf p.pid start).or (if 0 < p.memory then some p.memory else none)
  let wsPrivate := cpuLoad.workingSetPrivateOf p.pid start
  { pid := p.pid
    ppid := p.parent
    name := p.name
    startEpochS := start
    status :=
      if cpuLoad.isSuspended p.pid start then .suspended
      else if t.hung p.pid then .notResponding
      else p.status
    cpuPct := (pc.map ProcCpu.pct).getD 0
    workingSetBytes := wsTotal
    memBytes := (wsPrivate.or wsTotal).getD 0
    commitBytes :=
      if 0 < p.virtualMemory then some p.virtualMemory else cpuLoad.commitOf p.pid start
    peakMemBytes := cpuLoad.peakWorkingSetOf p.pid start
    cpuTimeS := pc.map fun c => (c.totalTime100ns : ℚ) / 10000000
    ioOpsPerS := pc.bind ProcCpu.ioOpsPerS
    hardFaultsPerS := pc.bind ProcCpu.hardFaultsPerS
    diskReadBps := (pc.bind ProcCpu.ioReadBps).getD (p.readBytes / t.interval)
    diskWriteBps := (pc.bind ProcCpu.ioWriteBps).getD (p.writtenBytes / t.interval)
    diskReadTotal := (pc.bind ProcCpu.ioReadTotal).getD p.totalReadBytes
    diskWriteTotal := (pc.bind ProcCpu.ioWriteTotal).getD p.totalWrittenBytes
    threads := cpuLoad.threadCountOf p.pid start
    handles := (t.handles p.pid start).or (cpuLoad.handleCountOf p.pid start) }

/-! ### One tick -/

/-- The sampler, as far as the kernel table goes. -/
structure SamplerState where
  cpuLoad : Accountant := {}
  /-- Last valid load sample, held when a tick's window is unusable. -/
  lastLoad : Option LoadSample := none

/-- One sample of the load; without one the last stays. -/
def SamplerState.refreshLoad (s : SamplerState) (answers : Answers) : SamplerState :=
  let (cpuLoad, sample) := s.cpuLoad.sample answers
  { cpuLoad, lastLoad := sample.or s.lastLoad }

/-- The processes of a tick that become rows. -/
def SamplerState.listed (s : SamplerState) (t : RowTick) : List SysProcess :=
  t.processes.filter fun p => !isDead s.cpuLoad t p

/-- What the load sample lists under a pid. -/
def SamplerState.loadOf (s : SamplerState) (pid : ℕ) : Option ProcCpu :=
  s.lastLoad.bind fun l => l.procs[pid]?

/-- The rows of a tick, after its load sample. -/
def SamplerState.rows (s : SamplerState) (t : RowTick) : List ProcessEntry :=
  (s.listed t).map fun p => processRow s.cpuLoad t p (s.loadOf p.pid)

/-- The sampler together with the table behind its load sample. -/
structure SamplerTrace where
  state : SamplerState := {}
  loadTable : OrdMap ℕ ProcRaw := ∅

/-- The sampler with the load sample of a tick. -/
def SamplerTrace.refreshed (d : SamplerTrace) (t : RowTick) : SamplerTrace where
  state := d.state.refreshLoad t.answers
  loadTable :=
    if (d.state.cpuLoad.sample t.answers).2.isSome then (t.answers.procs.map Prod.fst).getD ∅
    else d.loadTable

/-- A tick as a step of a run. -/
def SamplerTrace.step (d : SamplerTrace) (t : RowTick) : Option SamplerTrace := some (d.refreshed t)

/-- Whether the record behind the load sample is of the process of a row. -/
def SamplerTrace.ofProcess (d : SamplerTrace) (p : SysProcess) : Bool :=
  d.loadTable[p.pid]?.any fun raw =>
    matchesStartEpoch (startEpoch d.state.cpuLoad p) raw.createTime

/-- What the load sample lists for the process of a row, looked up by pid and creation time. -/
def SamplerTrace.ownLoadOf (d : SamplerTrace) (p : SysProcess) : Option ProcCpu :=
  (d.state.loadOf p.pid).filter fun _ => d.ofProcess p

/-- **The rows of a tick show their own values**: those of records with their pid and creation time,
and none where there is no such record. -/
def SamplerTrace.OwnValues (d : SamplerTrace) (t : RowTick) : Prop :=
  (d.refreshed t).state.rows t = ((d.refreshed t).state.listed t).map fun p =>
    processRow (d.refreshed t).state.cpuLoad t p ((d.refreshed t).ownLoadOf p)

/-- Every record that the load sample was built from and that has the pid of a row is of the row's
process. -/
def SamplerTrace.Identified (d : SamplerTrace) (t : RowTick) : Prop :=
  ∀ p ∈ (d.refreshed t).state.listed t, ∀ raw, (d.refreshed t).loadTable[p.pid]? = some raw →
    matchesStartEpoch (startEpoch (d.refreshed t).state.cpuLoad p) raw.createTime = true

/-! ### Where the values of a load sample come from -/

/-- The load sample was built from its table. -/
def SamplerTrace.Built (d : SamplerTrace) : Prop :=
  match d.state.lastLoad with
  | none => d.loadTable = ∅
  | some l => ∃ prev cores dtS, l = buildSample prev cores d.loadTable dtS

/-- A tick's load sample is new, built from the tick's table, or held. -/
theorem SamplerTrace.Built.refreshed {d : SamplerTrace} (hd : d.Built) (t : RowTick) :
    (d.refreshed t).Built := by
  unfold SamplerTrace.refreshed SamplerState.refreshLoad
  cases hsample : (d.state.cpuLoad.sample t.answers).2 with
  | none =>
    unfold SamplerTrace.Built at hd ⊢
    simp only [hsample, Option.none_or, Option.isSome_none, Bool.false_eq_true, if_false]
    exact hd
  | some l =>
    obtain ⟨prev, cores, procs, suspended, dtS, hprocs, hbuilt, -⟩ :=
      Accountant.sample_eq_some hsample
    unfold SamplerTrace.Built
    simp only [hsample, Option.some_or, Option.isSome_some, if_true, hprocs, Option.map_some,
      Option.getD_some]
    exact ⟨prev, cores, dtS, hbuilt⟩

/-- A load sample lists exactly the pids of its table. -/
theorem SamplerTrace.Built.isSome_loadOf {d : SamplerTrace} (hd : d.Built) (pid : ℕ) :
    (d.state.loadOf pid).isSome = d.loadTable[pid]?.isSome := by
  unfold SamplerTrace.Built at hd
  unfold SamplerState.loadOf
  cases hlast : d.state.lastLoad with
  | none =>
    rw [hlast] at hd
    rw [hd]
    simp
  | some l =>
    rw [hlast] at hd
    obtain ⟨prev, cores, dtS, rfl⟩ := hd
    rw [Option.bind_some, getElem?_buildSample, Option.isSome_map]

/-- The processor time of a guarded row is that of a record of its process. -/
theorem SamplerTrace.Built.cpuTimeS_eq_some {d : SamplerTrace} (hd : d.Built) {t : RowTick}
    {p : SysProcess} (hpid : p.pid ≠ 0) {seconds : ℚ}
    (h : (processRow d.state.cpuLoad t p (d.ownLoadOf p)).cpuTimeS = some seconds) :
    ∃ raw, d.loadTable[p.pid]? = some raw ∧
      matchesStartEpoch (startEpoch d.state.cpuLoad p) raw.createTime = true ∧
      seconds = (raw.totalTime : ℚ) / 10000000 := by
  obtain ⟨pc, hpc, rfl⟩ := Option.map_eq_some_iff.mp h
  obtain ⟨hload, hown⟩ := Option.filter_eq_some_iff.mp hpc
  obtain ⟨raw, hraw, hmatch⟩ := (Option.any_eq_true _ _).mp hown
  refine ⟨raw, hraw, hmatch, ?_⟩
  unfold SamplerTrace.Built at hd
  obtain ⟨l, hlast, hlisted⟩ := Option.bind_eq_some_iff.mp hload
  rw [hlast] at hd
  obtain ⟨prev, cores, dtS, rfl⟩ := hd
  rw [getElem?_buildSample, hraw, Option.map_some, procCpu, if_neg hpid] at hlisted
  rw [← Option.some.inj hlisted]

/-! ### Rows and records -/

theorem processRow_inj_none {cpuLoad : Accountant} {t : RowTick} {p : SysProcess} {pc : ProcCpu}
    (h : processRow cpuLoad t p (some pc) = processRow cpuLoad t p none) : False := by
  have htime := congrArg ProcessEntry.cpuTimeS h
  cases htime

/-- **One tick**: its rows show their own values exactly when it is identified. -/
theorem SamplerTrace.Built.ownValues_iff {d : SamplerTrace} (hd : d.Built) (t : RowTick) :
    d.OwnValues t ↔ d.Identified t := by
  have hbuilt := hd.refreshed t
  unfold SamplerTrace.OwnValues SamplerTrace.Identified SamplerState.rows
  rw [List.map_inj_left]
  refine forall₂_congr fun p _ => ?_
  have hlists := hbuilt.isSome_loadOf p.pid
  unfold SamplerTrace.ownLoadOf SamplerTrace.ofProcess
  cases hraw : (d.refreshed t).loadTable[p.pid]? with
  | none =>
    rw [hraw, Option.isSome_none, Option.isSome_eq_false_iff, Option.isNone_iff_eq_none] at hlists
    rw [hlists]
    simp
  | some raw =>
    rw [hraw, Option.isSome_some, Option.isSome_iff_exists] at hlists
    obtain ⟨pc, hpc⟩ := hlists
    rw [hpc, Option.any_some]
    constructor
    · intro hrow raw' hraw'
      obtain rfl := Option.some.inj hraw'
      cases hmatch : matchesStartEpoch (startEpoch (d.refreshed t).state.cpuLoad p)
        raw.createTime with
      | true => rfl
      | false =>
        rw [hmatch] at hrow
        exact (processRow_inj_none hrow).elim
    · intro hmatch
      rw [hmatch raw rfl]
      rfl

/-- **The rows of a run show their own values, exactly when each tick is identified.** -/
theorem own_values_iff (ticks : List RowTick) :
    Machine.Along SamplerTrace.step SamplerTrace.OwnValues {} ticks ↔
      Machine.Along SamplerTrace.step SamplerTrace.Identified {} ticks := by
  have hinit : ({} : SamplerTrace).Built := rfl
  refine Machine.along_iff_of_invariant (A := fun _ => True) (I := SamplerTrace.Built) ?_ ?_ hinit
    fun _ _ => trivial
  · intro d t d' hd _ hstep
    obtain rfl := Option.some.inj hstep
    exact hd.refreshed t
  · intro d t hd _
    exact hd.ownValues_iff t

/-- A pid is reused between two ticks that lie too close together: the held load sample still lists
the dead process's processor time, and the row of its successor shows it. -/
theorem reused_pid_inherits_load :
    let created : ℕ → ProcRaw := fun seconds =>
      { createTime := WINDOWS_TO_UNIX_EPOCH_100NS + 10000000 * seconds, kernel := 0, user := 0
        threadCount := 1 }
    let tick : ℕ → ℕ → RowTick := fun ms seconds =>
      { answers :=
          { now := ms, cores := some [⟨0, 0, 0, none⟩]
            procs := some ((∅ : OrdMap ℕ ProcRaw).insert 8 (created seconds), ∅) }
        processes := [{ pid := 8, name := "a.exe".toList, startTime := seconds }]
        now := ms, nowS := seconds, interval := 1, terminated := fun _ => false
        hung := fun _ => false, handles := fun _ _ => none }
    ¬Machine.Along SamplerTrace.step SamplerTrace.OwnValues {}
      [tick 0 100, tick 1000 100, tick 1050 200] := by
  intro created tick h
  let held : SamplerTrace :=
    ((({} : SamplerTrace).refreshed (tick 0 100)).refreshed (tick 1000 100))
  have hthird : held.OwnValues (tick 1050 200) := ((h.2 _ rfl).2 _ rfl).1
  have htimes := congrArg (List.map fun row => row.cpuTimeS.isSome) hthird
  exact absurd htimes (by decide +kernel)

end Taskman.Sampler
