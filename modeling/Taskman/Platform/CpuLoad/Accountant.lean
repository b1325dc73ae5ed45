import Taskman.Platform.CpuLoad

/-!
# The load accountant and its newest process table

The accountant keeps the newest reading of the kernel's process table.  A window that is too short,
or the first reading of all, yields no sample but replaces the reading.  Per-process values of the
reading are handed out only to rows whose creation time matches.

* `Accountant.sample` : one turn, with what the kernel answers;
* `matchesStartEpoch` : whether a record is of the process of a row, to the second;
* `Accountant.valueOf` and the accessors made of it : **guarded by the identity**.
-/

namespace Taskman.CpuLoad

/-- The shortest window a sample is made of, in ms. -/
abbrev MIN_WINDOW_MS : ℕ := 120

/-- A table older than this no longer proves that a process ended, in ms. -/
abbrev PROC_TABLE_MAX_AGE : ℕ := 5000

/-- The Unix epoch, counted from the one of Windows. -/
abbrev WINDOWS_TO_UNIX_EPOCH_100NS : ℤ := 116444736000000000

/-- A time of Windows in seconds since the Unix epoch, unless it is before that. -/
def filetimeToUnixSeconds (createTime : ℤ) : Option ℤ :=
  let value := createTime - WINDOWS_TO_UNIX_EPOCH_100NS
  if 0 ≤ value then some (value / 10000000) else none

/-- Whether a record is of the process that is expected, up to one second of rounding. -/
def matchesStartEpoch (expected : Option ℤ) (actualFiletime : ℤ) : Bool :=
  match expected with
  | none => true
  | some expected =>
    match filetimeToUnixSeconds actualFiletime with
    | none => false
    | some actual => decide (|actual - expected| ≤ 1)

/-- The newest readings, with the time they were taken at, in ms. -/
structure Reading where
  takenAt : ℕ
  cores : List CoreRaw
  procs : OrdMap ℕ ProcRaw

/-- `CpuLoadAccountant` -/
structure Accountant where
  prev : Option Reading := none
  /-- The suspended processes of the newest table, with their creation times. -/
  suspended : OrdMap ℕ ℤ := ∅

/-- What the kernel answers to one turn: the records of the cores, and the process table with the
processes that are suspended. -/
structure Answers where
  now : ℕ
  cores : Option (List CoreRaw)
  procs : Option (OrdMap ℕ ProcRaw × OrdMap ℕ ℤ)

/-- One sample; without an answer, or with the first one, there is none to show. -/
def Accountant.sample (a : Accountant) (answers : Answers) : Accountant × Option LoadSample :=
  match answers.cores, answers.procs with
  | none, _ => ({ a with suspended := ∅ }, none)
  | some _, none => ({ a with suspended := ∅ }, none)
  | some cores, some (procs, suspended) =>
    if cores.isEmpty then ({ a with suspended }, none)
    else
      let newest : Accountant := { prev := some ⟨answers.now, cores, procs⟩, suspended }
      match a.prev with
      | none => (newest, none)
      | some prev =>
        -- too short for trustworthy ratios: resync only
        if answers.now - prev.takenAt < MIN_WINDOW_MS then (newest, none)
        else
          (newest, some (buildSample ⟨prev.cores, prev.procs⟩ cores procs
            (((answers.now - prev.takenAt : ℕ) : ℚ) / 1000)))

/-- The record of the newest table for a pid. -/
def Accountant.record (a : Accountant) (pid : ℕ) : Option ProcRaw :=
  a.prev.bind fun prev => prev.procs[pid]?

/-- When a process was created. -/
def Accountant.startEpochOf (a : Accountant) (pid : ℕ) : Option ℤ :=
  (a.record pid).bind fun raw => filetimeToUnixSeconds raw.createTime

/-- Whether the newest table contains the process; a missing or an old table answers that it
does. -/
def Accountant.isProcessLive (a : Accountant) (now pid : ℕ) (startEpochS : Option ℤ) : Bool :=
  match a.prev with
  | none => true
  | some prev =>
    if PROC_TABLE_MAX_AGE < now - prev.takenAt then true
    else
      match prev.procs[pid]? with
      | none => false
      | some raw => matchesStartEpoch startEpochS raw.createTime

/-! ### Guarded accessors -/

/-- A field of the newest record of a process, if the record is of this process. -/
def Accountant.valueOf {α : Type*} (field : ProcRaw → α) (a : Accountant) (pid : ℕ)
    (startEpochS : Option ℤ) : Option α :=
  (a.record pid).bind fun raw =>
    if matchesStartEpoch startEpochS raw.createTime then some (field raw) else none

/-- The working set of a process that was created at the given time. -/
def Accountant.workingSetOf := Accountant.valueOf ProcRaw.workingSet

/-- The private part of its working set. -/
def Accountant.workingSetPrivateOf := Accountant.valueOf ProcRaw.workingSetPrivate

/-- The largest working set it has had. -/
def Accountant.peakWorkingSetOf := Accountant.valueOf ProcRaw.peakWorkingSet

/-- The memory it has committed. -/
def Accountant.commitOf := Accountant.valueOf ProcRaw.commit

/-- How many handles it has. -/
def Accountant.handleCountOf := Accountant.valueOf ProcRaw.handleCount

/-- How many threads it has. -/
def Accountant.threadCountOf := Accountant.valueOf ProcRaw.threadCount

/-- All its threads are suspended; a second of rounding is allowed. -/
def Accountant.isSuspended (a : Accountant) (pid : ℕ) (startEpochS : Option ℤ) : Bool :=
  match a.suspended[pid]? with
  | none => false
  | some nativeStart =>
    match startEpochS with
    | some expected => decide (|nativeStart - expected| ≤ 1)
    | none => true

/-- **What an accessor hands out is of a record of the same process.** -/
theorem Accountant.valueOf_eq_some {α : Type*} {field : ProcRaw → α} {a : Accountant} {pid : ℕ}
    {startEpochS : Option ℤ} {v : α} :
    a.valueOf field pid startEpochS = some v ↔
      ∃ raw, a.record pid = some raw ∧ matchesStartEpoch startEpochS raw.createTime = true ∧
        v = field raw := by
  rw [Accountant.valueOf, Option.bind_eq_some_iff]
  refine exists_congr fun raw => and_congr_right fun _ => ?_
  rw [Option.ite_none_right_eq_some, Option.some_inj, eq_comm (a := field raw)]

/-- **A turn**: a sample is made of the table that the accountant keeps from then on. -/
theorem Accountant.sample_eq_some {a : Accountant} {answers : Answers} {l : LoadSample}
    (h : (a.sample answers).2 = some l) :
    ∃ prev cores procs suspended dtS, answers.procs = some (procs, suspended) ∧
      l = buildSample prev cores procs dtS ∧
      (a.sample answers).1 = { prev := some ⟨answers.now, cores, procs⟩, suspended } := by
  unfold Accountant.sample at h ⊢
  split at h
  · cases h
  · cases h
  · rename_i cores procs suspended hcores hprocs
    split at h
    · cases h
    · rename_i hne
      dsimp only at h ⊢
      rw [if_neg hne]
      split at h
      · cases h
      · rename_i prev hprev
        split at h
        · cases h
        · rename_i hlong
          rw [if_neg hlong]
          exact ⟨_, cores, procs, suspended, _, hprocs, (Option.some.inj h).symm, rfl⟩

end Taskman.CpuLoad
