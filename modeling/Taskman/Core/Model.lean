import Taskman.Text.Basic
import Mathlib.Data.Rat.Defs

/-!
# The snapshot data model

One `Snapshot` is one sampling tick's view of the system.  Only the fields read by the modelled
functions are kept.  Measured quantities the source stores as floating point (rates, percentages,
accumulated CPU seconds) are exact rationals here; `u64` counters are natural numbers, and the
operations that wrap or saturate on them say so.
-/

namespace Taskman

/-- The values of a `u64` are below this bound. -/
abbrev u64Bound : ℕ := 2 ^ 64

/-- Addition of two `u64` as the release build performs it. -/
def wrappingAdd (a b : ℕ) : ℕ := (a + b) % u64Bound

/-- `u64::saturating_add`. -/
def saturatingAdd (a b : ℕ) : ℕ := min (a + b) (u64Bound - 1)

/-- `u64::checked_add`. -/
def checkedAdd (a b : ℕ) : Option ℕ := if a + b < u64Bound then some (a + b) else none

theorem wrappingAdd_le (a b : ℕ) : wrappingAdd a b ≤ a + b := Nat.mod_le _ _

theorem saturatingAdd_le (a b : ℕ) : saturatingAdd a b ≤ a + b := min_le_left _ _

theorem wrappingAdd_of_lt {a b : ℕ} (h : a + b < u64Bound) : wrappingAdd a b = a + b :=
  Nat.mod_eq_of_lt h

theorem saturatingAdd_of_lt {a b : ℕ} (h : a + b < u64Bound) : saturatingAdd a b = a + b :=
  min_eq_left (by omega)

/-- A saturating sum that stays below the bound is the sum. -/
theorem foldl_saturatingAdd {α : Type*} (g : α → ℕ) (l : List α) {a : ℕ}
    (h : a + (l.map g).sum < u64Bound) :
    l.foldl (fun acc x => saturatingAdd acc (g x)) a = a + (l.map g).sum := by
  induction l generalizing a with
  | nil => rfl
  | cons x l ih =>
    rw [List.map_cons, List.sum_cons] at h ⊢
    rw [List.foldl_cons, saturatingAdd_of_lt (by omega), ih (by omega), Nat.add_assoc]

/-- The error type of the core crate. -/
inductive TmError where
  | unsupported (what : Text)
  | io (detail : Text)
  | json (detail : Text)
  | channelClosed
  | platform (context detail : Text)
  | processNotFound (pid : ℕ)
  | serviceNotFound (name : Text)
  | canceled
  deriving DecidableEq

/-- The text of an error. -/
def TmError.display : TmError → Text
  | unsupported what => "operation not supported on this platform: ".toList ++ what
  | io detail => "I/O error: ".toList ++ detail
  | json detail => "serialization error: ".toList ++ detail
  | channelClosed => "engine channel closed".toList
  | platform context detail =>
    "platform API failure: ".toList ++ context ++ ": ".toList ++ detail
  | processNotFound pid => "process ".toList ++ Nat.toDigits 10 pid ++ " not found".toList
  | serviceNotFound name => "service '".toList ++ name ++ "' not found".toList
  | canceled => "operation canceled".toList

/-- The sections of the process list. -/
inductive ProcCategory where
  | app
  | background
  | system
  deriving DecidableEq, Repr

/-- The states of a process. -/
inductive ProcStatus where
  | running
  | suspended
  | notResponding
  deriving DecidableEq, Repr

/-- Base priority classes. -/
inductive PriorityClass where
  | realtime
  | high
  | aboveNormal
  | normal
  | belowNormal
  | low
  | unknown
  deriving DecidableEq, Repr

/-- UAC virtualization state of the process token. -/
inductive UacVirtualization where
  | enabled
  | disabled
  | notAllowed
  | unknown
  deriving DecidableEq, Repr

/-- One physical disk's active time spent on one process. -/
structure DiskActiveShare where
  disk : ℕ
  activePct : ℚ
  deriving DecidableEq

/-- One physical GPU engine's time spent on one process. -/
structure GpuEngineShare where
  adapter : ℕ
  engine : ℕ
  utilPct : ℚ
  deriving DecidableEq

/-- One row of the process table. -/
structure ProcessEntry where
  pid : ℕ
  ppid : Option ℕ := none
  /-- Executable base name. -/
  name : Text
  /-- Friendly display name; empty when unknown. -/
  display : Text := []
  /-- Publisher string when known. -/
  company : Option Text := none
  description : Option Text := none
  category : ProcCategory := .app
  status : ProcStatus := .running
  user : Option Text := none
  userSid : Option Text := none
  sessionId : Option ℕ := none
  cpuPct : ℚ := 0
  memBytes : ℕ := 0
  workingSetBytes : Option ℕ := none
  commitBytes : Option ℕ := none
  peakMemBytes : Option ℕ := none
  diskReadBps : ℚ := 0
  diskWriteBps : ℚ := 0
  diskReadTotal : ℕ := 0
  diskWriteTotal : ℕ := 0
  /-- Share of its busiest disk's active time, and the shares per disk. -/
  diskActivePct : Option ℚ := none
  diskActiveByDisk : List DiskActiveShare := []
  /-- Bytes per second moved to or from a physical disk. -/
  diskPhysReadBps : Option ℚ := none
  diskPhysWriteBps : Option ℚ := none
  ioOpsPerS : Option ℚ := none
  hardFaultsPerS : Option ℚ := none
  /-- Network rates and totals; `none` where the platform cannot measure them. -/
  netRecvBps : Option ℚ := none
  netSentBps : Option ℚ := none
  netRecvTotal : Option ℕ := none
  netSentTotal : Option ℕ := none
  /-- Busiest GPU engine share, and the shares per engine. -/
  gpuUtilPct : Option ℚ := none
  gpuMemBytes : Option ℕ := none
  gpuDedicatedBytes : Option ℕ := none
  gpuSharedBytes : Option ℕ := none
  /-- Dominant engine, e.g. "GPU 0 - 3D". -/
  gpuEngineLabel : Option Text := none
  gpuEngines : List GpuEngineShare := []
  handles : Option ℕ := none
  threads : Option ℕ := none
  pageFaultsPerS : Option ℕ := none
  startEpochS : Option ℤ := none
  cpuTimeS : Option ℚ := none
  priority : PriorityClass := .unknown
  /-- Image path, as `to_string_lossy` gives it. -/
  exePath : Option Text := none
  /-- Whether the image path is valid Unicode, so that `to_str` gives it too. -/
  exePathUnicode : Bool := true
  commandLine : Option Text := none
  hasWindow : Bool := false
  /-- Topmost process of an app subtree, as the collector saw it. -/
  appRoot : Bool := false
  /-- Display names of the hosted services, separated by commas. -/
  serviceName : Option Text := none
  elevated : Option Bool := none
  /-- 32-bit process on a 64-bit system. -/
  wow64 : Option Bool := none
  /-- Token virtualization state; `none` when it could not be queried. -/
  uacVirtualization : Option UacVirtualization := none
  powerThrottled : Option Bool := none
  /-- Pseudo-row without an OS process behind it. -/
  synthetic : Bool := false
  deriving DecidableEq

/-- Name shown in tables. -/
def ProcessEntry.shownName (p : ProcessEntry) : Text :=
  if p.display.isEmpty then p.name else p.display

/-- Working set that is not private. -/
def ProcessEntry.sharedWorkingSetBytes (p : ProcessEntry) : Option ℕ :=
  p.workingSetBytes.map fun ws => ws - p.memBytes

/-- A parent link recorded at process creation, rejected when the parent is known to have started
after the child. -/
def isPlausibleParent (parent child : ProcessEntry) : Bool :=
  match parent.startEpochS, child.startEpochS with
  | some parentStart, some childStart => decide (parentStart ≤ childStart)
  | _, _ => true

/-- What is known of the processors. -/
structure CpuInfo where
  logicalCount : ℕ := 1
  deriving DecidableEq

/-- What else is known of the system. -/
structure SystemMisc where
  uptimeS : ℕ := 0
  deriving DecidableEq

/-- A single consistent sample of the whole system. -/
structure Snapshot where
  cpu : CpuInfo := {}
  processes : List ProcessEntry
  system : SystemMisc := {}
  deriving DecidableEq

/-- Look up a process by pid. -/
def Snapshot.process (s : Snapshot) (pid : ℕ) : Option ProcessEntry :=
  s.processes.find? fun p => decide (p.pid = pid)

/-! ### Image keys -/

/-- What the key of a saved process policy takes from the platform: the target operating system
and `str::to_lowercase`. -/
structure KeyHost where
  windows : Bool
  toLowercase : Text → Text

/-- Stable key used by saved process policies: on Windows case insensitive, with one slash
style. -/
def processRuleKey (host : KeyHost) (path : Text) : Text :=
  if host.windows then host.toLowercase (path.map fun c => if c = '/' then '\\' else c) else path

end Taskman
