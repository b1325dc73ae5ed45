import Taskman.Collections.HashOrder
import Taskman.Platform.Gpu.Processes
import Taskman.Platform.PerfCounters
import Taskman.Text.Decimal

/-!
# What is read from the counter groups

The readers hand out what the helper formats from the data a group has collected, once the group is
open and warm.  The helper names every value by an instance, such as
`pid_1276_luid_0x00000000_0x0000E1A5_phys_0_eng_3_engtype_VideoDecode`.  A counter is added to a
group once, so its path stands for its handle.

* `parseGpuInstance` : the fields of an instance name;
* `PdhCounters.readGpuEngines`, `readGpuAdapterMemory`, `readGpuMemory`, `readCpuPerfPct`,
  `readInterruptPct`, `readDisks` : the readers;
* `PdhRead.returnsValue` : whether a reader returns anything;
* `PdhRead.returnsValue_eq` : **it does exactly for an open and warm group of whose counters the
  helper hands out enough**.
-/

namespace Taskman

open Gpu (AdapterLuid GpuEngineRecord GpuAdapterMemRecord GpuMemRecord)

/-! ### Instance names -/

/-- The fields found in the name of an instance. -/
structure ParsedGpuInstance where
  pid : Option ℕ := none
  luid : Option AdapterLuid := none
  physIndex : Option ℕ := none
  engineIndex : Option ℕ := none
  engineType : Option Text := none
  deriving DecidableEq

/-- The texts of the fields. -/
def FIELD_PID : Text := "pid".toList

/-- The name of the adapter field of an instance. -/
def FIELD_LUID : Text := "luid".toList

/-- The name of the field of its physical index. -/
def FIELD_PHYS : Text := "phys".toList

/-- The name of the field of its engine. -/
def FIELD_ENG : Text := "eng".toList

/-- The name of the field of the type of the engine. -/
def FIELD_ENGTYPE : Text := "engtype".toList

/-- The value of a hexadecimal digit. -/
def hexValue (c : Char) : Option ℕ :=
  if c.isDigit then some (c.toNat - '0'.toNat)
  else if 'a' ≤ c ∧ c ≤ 'f' then some (c.toNat - 'a'.toNat + 10)
  else if 'A' ≤ c ∧ c ≤ 'F' then some (c.toNat - 'A'.toNat + 10)
  else none

/-- `t.trim_start_matches("0x")` -/
def trimHexMarks : Text → Text
  | '0' :: 'x' :: t => trimHexMarks t
  | t => t

/-- `u32::from_str_radix(t.trim_start_matches("0x"), 16)` -/
def parseHex (t : Text) : Option ℕ := do
  let digits ← (Text.stripPlus (trimHexMarks t)).mapM hexValue
  let value := digits.foldl (fun n d => n * 16 + d) 0
  if digits ≠ [] ∧ value < 2 ^ 32 then some value else none

/-- `t.parse::<u32>().ok()` -/
def parseU32 (t : Text) : Option ℕ := Text.parseNat (2 ^ 32) t

/-- The fields from one part of the name on.  A value is looked at as a field again, except for the
first half of an LUID that is not hexadecimal. -/
def parseGpuParts (out : ParsedGpuInstance) : List Text → ParsedGpuInstance
  | [] => out
  | part :: rest =>
    if part = FIELD_PID then
      match rest with
      | [] => out
      | value :: more => parseGpuParts { out with pid := parseU32 value } (value :: more)
    else if part = FIELD_LUID then
      match rest with
      | [] => out
      | [hi] => parseGpuParts out [hi]
      | hi :: lo :: more =>
        match parseHex hi, parseHex lo with
        | some high, some low =>
          parseGpuParts { out with luid := some ⟨Int.bmod high (2 ^ 32), low⟩ } (hi :: lo :: more)
        | _, _ => parseGpuParts out (lo :: more)
    else if part = FIELD_PHYS then
      match rest with
      | [] => out
      | value :: more => parseGpuParts { out with physIndex := parseU32 value } (value :: more)
    else if part = FIELD_ENG then
      match rest with
      | [] => out
      | value :: more => parseGpuParts { out with engineIndex := parseU32 value } (value :: more)
    else if part = FIELD_ENGTYPE then { out with engineType := some (['_'].intercalate rest) }
    else parseGpuParts out rest

/-- A part that begins with a digit is no field. -/
theorem parseGpuParts_value (out : ParsedGpuInstance) {c : Char} (hc : c.isDigit) (t : Text)
    (rest : List Text) : parseGpuParts out ((c :: t) :: rest) = parseGpuParts out rest := by
  have hne : ∀ {field : Text}, field.head?.any Char.isDigit = false → c :: t ≠ field := by
    rintro _ hf rfl
    rw [List.head?_cons, Option.any_some, hc] at hf
    exact Bool.false_ne_true hf.symm
  have hpid : c :: t ≠ FIELD_PID := hne (by decide)
  have hluid : c :: t ≠ FIELD_LUID := hne (by decide)
  have hphys : c :: t ≠ FIELD_PHYS := hne (by decide)
  have heng : c :: t ≠ FIELD_ENG := hne (by decide)
  have hengtype : c :: t ≠ FIELD_ENGTYPE := hne (by decide)
  cases rest with
  | nil =>
    rw [parseGpuParts.eq_2, if_neg hpid, if_neg hluid, if_neg hphys, if_neg heng, if_neg hengtype]
  | cons next rest =>
    rw [parseGpuParts.eq_3, if_neg hpid, if_neg hluid, if_neg hphys, if_neg heng, if_neg hengtype]

/-- The fields of the name of an instance. -/
def parseGpuInstance (instance_ : Text) : ParsedGpuInstance :=
  parseGpuParts {} (instance_.splitOn '_')

example : parseGpuInstance "pid_42_luid_0x00000000_0x00000002".toList =
    { pid := some 42, luid := some ⟨0, 2⟩ } := by decide +kernel

/-! ### The readers -/

/-- What the helper formats from the data of a counter: instances and their values. -/
abbrev ReadPairs := Text → List (Text × ℚ)

/-- Performance of one disk. -/
structure DiskPerf where
  /-- The raw instance name, such as `0 C:`. -/
  instance_ : Text
  activePct : ℚ
  readBps : ℚ
  writeBps : ℚ
  avgRespMs : ℚ

/-- `v.max(0.0) as u64` -/
def asU64 (v : ℚ) : ℕ := min (max v 0).floor.toNat (u64Bound - 1)

/-- `*map.entry(key).or_insert(0) += v.max(0.0) as u64` -/
def addBytes {κ : Type*} [DecidableEq κ] (map : κ → ℕ) (key : κ) (v : ℚ) : κ → ℕ :=
  Function.update map key (wrappingAdd (map key) (asU64 v))

/-- The group of a slot, where it is open and warm. -/
def Slot.readable (slot : Slot) : Option QueryGroup :=
  slot.group.filter fun g => g.isOpen && g.warm

/-- The pairs of all counters of a group whose path is one of some. -/
def QueryGroup.pairsOf (g : QueryGroup) (readPairs : ReadPairs) (paths : List Text) :
    List (Text × Text × ℚ) :=
  (g.counters.filter (· ∈ paths)).flatMap fun path =>
    (readPairs path).map fun pair => (path, pair.1, pair.2)

/-- The first counter of a path with usable values, and their average. -/
def QueryGroup.average (g : QueryGroup) (readPairs : ReadPairs) (wanted : Text)
    (usable : ℚ → Bool) : Option ℚ :=
  g.counters.findSome? fun path =>
    let values := ((readPairs path).map Prod.snd).filter usable
    if path = wanted ∧ values ≠ [] then some (values.sum / values.length) else none

/-- The key of a process's memory on one adapter. -/
def memKey (p : ParsedGpuInstance) : ℤ × ℕ :=
  (p.luid.elim (-1) fun luid => luid.high * 2 ^ 32 + luid.low, p.pid.getD (2 ^ 32 - 1))

/-- The type of an engine that the name does not give. -/
def ENGINE_UNKNOWN : Text := "Unknown".toList

namespace PdhCounters

/-- The load of every engine instance. -/
def readGpuEngines (pdh : PdhCounters) (readPairs : ReadPairs) : Option (List GpuEngineRecord) :=
  pdh.gpu.readable.map fun g =>
    (g.pairsOf readPairs [GPU_ENGINE_PATH]).filterMap fun (_, instance_, v) =>
      if v < 0 then none
      else
        let p := parseGpuInstance instance_
        p.luid.map fun luid =>
          { luid
            pid := p.pid
            physIndex := p.physIndex
            engineIndex := p.engineIndex
            engineType := p.engineType.getD ENGINE_UNKNOWN
            utilizationPct := max 0 (min v 100) }

/-- The memory of each adapter: its dedicated and its shared bytes. -/
def readGpuAdapterMemory (pdh : PdhCounters) (readPairs : ReadPairs) :
    Option (List GpuAdapterMemRecord) :=
  pdh.gpu.readable.map fun g =>
    let found := (g.pairsOf readPairs [GPU_ADAPTER_MEM_DEDICATED, GPU_ADAPTER_MEM_SHARED]).filterMap
      fun (path, instance_, v) => (parseGpuInstance instance_).luid.map fun luid => (path, luid, v)
    let bytes : Text → AdapterLuid → ℕ := fun wanted =>
      (found.filter fun f => f.1 = wanted).foldl
        (fun map f => addBytes map f.2.1 f.2.2) fun _ => 0
    let luids := found.foldl (fun luids f => if f.2.1 ∈ luids then luids else luids ++ [f.2.1]) []
    let out := luids.map fun luid =>
      { luid
        dedicatedBytes := bytes GPU_ADAPTER_MEM_DEDICATED luid
        sharedBytes := bytes GPU_ADAPTER_MEM_SHARED luid : GpuAdapterMemRecord }
    out.mergeSort fun a b =>
      ((compare a.luid.high b.luid.high).then (compare a.luid.low b.luid.low)).isLE

/-- An entry of the table of processes with memory: a key and what it was made from. -/
abbrev MemEntry := (ℤ × ℕ) × Option AdapterLuid × Option ℕ

/-- The memory of each process on each adapter, from a table iterated over in some order. -/
def readGpuMemory (pdh : PdhCounters) (readPairs : ReadPairs) (order : HashOrder MemEntry) :
    Option (List GpuMemRecord) :=
  pdh.gpu.readable.map fun g =>
    let found := (g.pairsOf readPairs [GPU_PROCESS_MEM_DEDICATED, GPU_PROCESS_MEM_SHARED]).map
      fun (path, instance_, v) => (path, parseGpuInstance instance_, v)
    let bytes : Text → ℤ × ℕ → ℕ := fun wanted => (found.filter fun f => f.1 = wanted).foldl
      (fun map f => addBytes map (memKey f.2.1) f.2.2) fun _ => 0
    let table := found.foldl (fun table f =>
      table.filter (fun e => e.1 ≠ memKey f.2.1) ++
        [(memKey f.2.1, f.2.1.luid, f.2.1.pid)]) ([] : List MemEntry)
    let out := (order.order table).map fun e =>
      { luid := e.2.1
        pid := e.2.2
        dedicatedBytes := bytes GPU_PROCESS_MEM_DEDICATED e.1
        sharedBytes := bytes GPU_PROCESS_MEM_SHARED e.1 : GpuMemRecord }
    let key := fun r : GpuMemRecord => (r.luid.elim 0 AdapterLuid.low, r.pid.getD 0)
    out.mergeSort fun a b =>
      ((compare (key a).1 (key b).1).then (compare (key a).2 (key b).2)).isLE

/-- Percent of the nominal frequency; values that are not positive are unusable. -/
def readCpuPerfPct (pdh : PdhCounters) (readPairs : ReadPairs) : Option ℚ :=
  pdh.cpu.readable.bind fun g => g.average readPairs CPU_PERF_PCT fun v => 0 < v

/-- Percent of the capacity spent on interrupts and deferred calls; both must be there. -/
def readInterruptPct (pdh : PdhCounters) (readPairs : ReadPairs) : Option ℚ :=
  pdh.interrupt.readable.bind fun g => do
    let interrupts ← g.average readPairs CPU_INTERRUPT_PCT fun v => 0 ≤ v
    let dpcs ← g.average readPairs CPU_DPC_PCT fun v => 0 ≤ v
    some (max 0 (min (interrupts + dpcs) 100))

/-- The disks that have an idle time. -/
def readDisks (pdh : PdhCounters) (readPairs : ReadPairs) : List DiskPerf :=
  match pdh.disk.readable with
  | none => []
  | some d =>
    let table := fun path => (d.pairsOf readPairs [path]).foldl
      (fun map pair => map.insert pair.2.1 pair.2.2) (∅ : OrdMap Text ℚ)
    let idle := table DISK_IDLE
    let read := table DISK_READ
    let write := table DISK_WRITE
    let sec := table DISK_SEC
    -- The map lists its keys sorted.
    idle.toList.map fun (instance_, idlePct) =>
      { instance_
        activePct := max 0 (min (100 - idlePct) 100)
        readBps := max (read[instance_]?.getD 0) 0
        writeBps := max (write[instance_]?.getD 0) 0
        avgRespMs := max (sec[instance_]?.getD 0) 0 * 1000 }

end PdhCounters

/-! ### Whether a reader returns anything -/

/-- Which of the readers. -/
inductive PdhRead where
  | gpuEngines
  | gpuAdapterMemory
  | gpuMemory (order : HashOrder PdhCounters.MemEntry)
  | cpuPerfPct
  | interruptPct
  | disks

namespace PdhRead

/-- The group it reads. -/
def group : PdhRead → PdhGroup
  | gpuEngines | gpuAdapterMemory | gpuMemory _ => .gpu
  | cpuPerfPct => .cpu
  | interruptPct => .interrupt
  | disks => .disk

/-- Whether the reader returns a value: something, or a list of disks that is not empty. -/
def returnsValue (pdh : PdhCounters) (readPairs : ReadPairs) : PdhRead → Bool
  | gpuEngines => (pdh.readGpuEngines readPairs).isSome
  | gpuAdapterMemory => (pdh.readGpuAdapterMemory readPairs).isSome
  | gpuMemory order => (pdh.readGpuMemory readPairs order).isSome
  | cpuPerfPct => (pdh.readCpuPerfPct readPairs).isSome
  | interruptPct => (pdh.readInterruptPct readPairs).isSome
  | disks => !(pdh.readDisks readPairs).isEmpty

/-- A counter of the path is in the group and the helper hands out a usable value of it. -/
def offers (counters : List Text) (readPairs : ReadPairs) (path : Text) (usable : ℚ → Bool) :
    Bool :=
  decide (path ∈ counters) && (readPairs path).any fun pair => usable pair.2

/-- Whether the helper hands out what the reader needs for a value. -/
def offered (counters : List Text) (readPairs : ReadPairs) : PdhRead → Bool
  | gpuEngines | gpuAdapterMemory | gpuMemory _ => true
  | cpuPerfPct => offers counters readPairs CPU_PERF_PCT fun v => 0 < v
  | interruptPct =>
    offers counters readPairs CPU_INTERRUPT_PCT (fun v => 0 ≤ v) &&
      offers counters readPairs CPU_DPC_PCT fun v => 0 ≤ v
  | disks => offers counters readPairs DISK_IDLE fun _ => true

/-- There is an average exactly where a usable value is offered. -/
theorem isSome_average (g : QueryGroup) (readPairs : ReadPairs) (wanted : Text)
    (usable : ℚ → Bool) :
    (g.average readPairs wanted usable).isSome = offers g.counters readPairs wanted usable := by
  rw [Bool.eq_iff_iff, QueryGroup.average, List.findSome?_isSome_iff, offers, Bool.and_eq_true,
    decide_eq_true_iff, List.any_eq_true]
  constructor
  · rintro ⟨path, hpath, hsome⟩
    dsimp only at hsome
    split at hsome
    · rename_i hvalues
      obtain ⟨rfl, hne⟩ := hvalues
      obtain ⟨v, hv⟩ := List.exists_mem_of_ne_nil _ hne
      obtain ⟨hmem, husable⟩ := List.mem_filter.mp hv
      obtain ⟨pair, hpair, rfl⟩ := List.mem_map.mp hmem
      exact ⟨hpath, pair, hpair, husable⟩
    · cases hsome
  · rintro ⟨hpath, pair, hpair, husable⟩
    refine ⟨wanted, hpath, ?_⟩
    have hne : ((readPairs wanted).map Prod.snd).filter usable ≠ [] :=
      List.ne_nil_of_mem (List.mem_filter.mpr ⟨List.mem_map_of_mem hpair, husable⟩)
    simp [hne]

theorem isEmpty_foldl_insert (pairs : List (Text × Text × ℚ)) (map : OrdMap Text ℚ) :
    (pairs.foldl (fun map pair => map.insert pair.2.1 pair.2.2) map).isEmpty =
      (map.isEmpty && pairs.isEmpty) := by
  induction pairs generalizing map with
  | nil => simp
  | cons pair pairs ih => rw [List.foldl_cons, ih]; simp

theorem isEmpty_pairsOf (g : QueryGroup) (readPairs : ReadPairs) (path : Text) :
    (g.pairsOf readPairs [path]).isEmpty = !offers g.counters readPairs path fun _ => true := by
  rw [Bool.eq_iff_iff, List.isEmpty_iff, QueryGroup.pairsOf, List.flatMap_eq_nil_iff]
  simp only [List.mem_filter, List.mem_singleton, decide_eq_true_eq, List.map_eq_nil_iff, offers]
  cases hpairs : readPairs path with
  | nil =>
    refine iff_of_true ?_ (by simp)
    rintro _ ⟨-, rfl⟩
    exact hpairs
  | cons pair rest =>
    by_cases hpath : path ∈ g.counters
    · simp [hpath, hpairs]
    · refine iff_of_true ?_ (by simp [hpath])
      rintro _ ⟨hmem, rfl⟩
      exact absurd hmem hpath

/-- **A reader returns a value exactly for an open and warm group of whose counters the helper hands
out enough.** -/
theorem returnsValue_eq (read : PdhRead) (pdh : PdhCounters) (readPairs : ReadPairs) :
    read.returnsValue pdh readPairs =
      (pdh.slot read.group).readable.any fun g => read.offered g.counters readPairs := by
  cases read with
  | gpuEngines | gpuAdapterMemory | gpuMemory order =>
    simp only [returnsValue, offered, group, PdhCounters.slot, PdhCounters.readGpuEngines,
      PdhCounters.readGpuAdapterMemory, PdhCounters.readGpuMemory, Option.isSome_map]
    cases pdh.gpu.readable <;> rfl
  | cpuPerfPct =>
    simp only [returnsValue, offered, group, PdhCounters.slot, PdhCounters.readCpuPerfPct]
    cases pdh.cpu.readable with
    | none => rfl
    | some g => exact isSome_average g readPairs CPU_PERF_PCT _
  | interruptPct =>
    simp only [returnsValue, offered, group, PdhCounters.slot, PdhCounters.readInterruptPct]
    cases pdh.interrupt.readable with
    | none => rfl
    | some g =>
      simp only [Option.bind_some, Option.any_some, ← isSome_average]
      cases g.average readPairs CPU_INTERRUPT_PCT _ with
      | none => rfl
      | some interrupts => cases g.average readPairs CPU_DPC_PCT _ <;> rfl
  | disks =>
    simp only [returnsValue, offered, group, PdhCounters.slot, PdhCounters.readDisks]
    cases pdh.disk.readable with
    | none => rfl
    | some d =>
      simp only [List.isEmpty_map, Option.any_some, Std.ExtTreeMap.isEmpty_toList,
        isEmpty_foldl_insert, isEmpty_pairsOf]
      simp

end PdhRead

end Taskman
