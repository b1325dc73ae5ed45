import Taskman.Core.Engine
import Taskman.LTS.Machine
import Taskman.Text.Basic

/-!
# Counter groups of the performance data helper

Counters are split into four query groups.  Each opens its own query when the demand first asks for
it, is collected once in a tick while it is open, and is closed when it has not been needed for the
keep-alive.  A sleeping group stays in its slot, closed, so that its failure is remembered.

* `QueryGroup`, `Slot` : one group, and the slot it lives in;
* `PdhCounters.tick` : one tick of all four, with what the helper answers in it;
* `PdhRun.step` : a tick some time after the last one; a run remembers when each group was last
  demanded;
* `PdhRun.FollowsDemand` : what one tick owes the demand;
* `PdhRun.follows_iff` : **collecting an open group counts as needing it, so the groups follow the
  demand exactly while it never leaves an open group for longer than the keep-alive**.
-/

namespace Taskman

namespace TelemetryDemand

/-- Someone wants the process list. -/
def CORE_PROCESS : TelemetryDemand := ⟨1 <<< 0⟩

/-- Someone wants the rates of the disks. -/
def DISK_RATE : TelemetryDemand := ⟨1 <<< 1⟩

/-- Someone wants the load of the adapters. -/
def GPU_ADAPTER : TelemetryDemand := ⟨1 <<< 4⟩

/-- Someone wants the GPU load of the processes. -/
def PROCESS_GPU : TelemetryDemand := ⟨1 <<< 5⟩

/-- Someone wants their GPU memory. -/
def PROCESS_GPU_MEMORY : TelemetryDemand := ⟨1 <<< 6⟩

/-- Someone wants the speed of the processor. -/
def CPU_SPEED : TelemetryDemand := ⟨1 <<< 8⟩

/-- Something of the other demand is wanted. -/
def wants (self other : TelemetryDemand) : Bool := self.bits &&& other.bits != 0

/-- Any demand for the graphics adapters, the page or the columns. -/
def anyGpu (self : TelemetryDemand) : Bool :=
  self.wants GPU_ADAPTER || self.wants PROCESS_GPU || self.wants PROCESS_GPU_MEMORY

end TelemetryDemand

/-! ### One group -/

/-- How long a group is kept warm after its demand disappeared, in ns. -/
def KEEPALIVE : ℕ := 30 * 1000000000

/-- What the helper answers to one group in one tick. -/
structure PdhAnswers where
  /-- The handle of a new query, if one can be opened. -/
  openQuery : Option ℕ
  /-- Whether a counter can be added to it. -/
  addCounter : Text → Bool
  /-- Whether its data is collected. -/
  collectData : Bool

/-- A query group that is opened on demand; its rate counters need two samples. -/
structure QueryGroup where
  query : Option ℕ := none
  counters : List Text := []
  collectionsDone : ℕ := 0
  warm : Bool := false
  lastNeeded : ℕ

namespace QueryGroup

/-- A group that was needed just now, and is not open. -/
def new (now : ℕ) : QueryGroup where
  lastNeeded := now

/-- The query is open. -/
def isOpen (g : QueryGroup) : Bool := g.query.isSome

/-- Open the query of a group with all counters that can be added. -/
def open_ (g : QueryGroup) (answers : PdhAnswers) (paths : List Text) : QueryGroup :=
  if g.query.isSome || paths.isEmpty then g
  else
    match answers.openQuery with
    | none => g
    | some q =>
      { g with
        query := some q
        counters := g.counters ++ paths.filter answers.addCounter
        collectionsDone := 0
        warm := false }

/-- Close the query, and forget what was collected. -/
def close (g : QueryGroup) : QueryGroup :=
  { g with query := none, counters := [], warm := false, collectionsDone := 0 }

/-- A `u32` that stays at its largest value. -/
def saturatingSucc (n : ℕ) : ℕ := min (n + 1) (2 ^ 32 - 1)

/-- Collects once; the flag says whether there are values to read. -/
def collect (g : QueryGroup) (answers : PdhAnswers) (now : ℕ) : Bool × QueryGroup :=
  if g.isOpen then
    let g := { g with lastNeeded := now }
    if answers.collectData then
      let g := { g with collectionsDone := saturatingSucc g.collectionsDone }
      if g.warm then (true, g)
      else if 2 ≤ g.collectionsDone then (true, { g with warm := true })
      else (false, g)
    else (false, g)
  else (false, g)

/-- Closes the group when its demand has been gone for longer than the keep-alive. -/
def maybeSleep (g : QueryGroup) (now : ℕ) (needed : Bool) : QueryGroup :=
  if needed then { g with lastNeeded := now }
  else if g.isOpen && KEEPALIVE < now - g.lastNeeded then g.close
  else g

@[simp] theorem isOpen_new (now : ℕ) : (new now).isOpen = false := rfl

/-- Only a query that can be opened opens a group. -/
theorem isOpen_open (g : QueryGroup) (answers : PdhAnswers) {paths : List Text} (h : paths ≠ []) :
    (g.open_ answers paths).isOpen = (g.isOpen || answers.openQuery.isSome) := by
  unfold open_ isOpen
  cases hquery : g.query with
  | some q => simp [hquery]
  | none =>
    rw [Option.isSome_none, Bool.false_or, Bool.false_or, List.isEmpty_eq_false_iff.mpr h,
      if_neg Bool.false_ne_true]
    cases answers.openQuery with
    | none => simp [hquery]
    | some q => rfl

@[simp] theorem isOpen_collect (g : QueryGroup) (answers : PdhAnswers) (now : ℕ) :
    (g.collect answers now).2.isOpen = g.isOpen := by
  unfold collect isOpen
  split
  · split
    · dsimp only
      split
      · rfl
      · split <;> rfl
    · rfl
  · rfl

/-- Collecting an open group counts as needing it. -/
theorem lastNeeded_collect {g : QueryGroup} (h : g.isOpen = true) (answers : PdhAnswers)
    (now : ℕ) : (g.collect answers now).2.lastNeeded = now := by
  unfold collect
  rw [if_pos h]
  split
  · dsimp only
    split
    · rfl
    · split <;> rfl
  · rfl

/-- A group that was collected in the same tick never goes to sleep. -/
theorem isOpen_maybeSleep_collect {g : QueryGroup} (h : g.isOpen = true) (answers : PdhAnswers)
    (now : ℕ) (needed : Bool) :
    ((g.collect answers now).2.maybeSleep now needed).isOpen = true := by
  have hopen : (g.collect answers now).2.isOpen = true := (isOpen_collect g answers now).trans h
  unfold maybeSleep
  rw [lastNeeded_collect h, Nat.sub_self]
  split
  · exact hopen
  · rw [if_neg (by simp [KEEPALIVE])]
    exact hopen

/-- A closed group stays closed in `maybeSleep`. -/
theorem isOpen_maybeSleep_of_closed {g : QueryGroup} (h : g.isOpen = false) (now : ℕ)
    (needed : Bool) : (g.maybeSleep now needed).isOpen = false := by
  unfold maybeSleep
  split
  · exact h
  · rw [if_neg (by simp [h])]
    exact h

end QueryGroup

/-! ### A slot -/

/-- A group, once there is one, and whether it is marked failed. -/
structure Slot where
  group : Option QueryGroup := none
  failed : Bool := false

namespace Slot

/-- The group of a slot is open. -/
def isOpen (slot : Slot) : Bool := slot.group.any QueryGroup.isOpen

/-- Opens a wanted group, also one that went to sleep.  One that cannot be opened, or opens without
any counter where they are required, is marked failed. -/
def wake (slot : Slot) (answers : PdhAnswers) (now : ℕ) (paths : List Text)
    (requireCounters : Bool) : Slot :=
  let group := slot.group.getD (QueryGroup.new now)
  if group.isOpen then { slot with group := some group }
  else
    let group := group.open_ answers paths
    { group := some group
      failed := slot.failed || !group.isOpen || (requireCounters && group.counters.isEmpty) }

/-- What a tick does with a group that is there. -/
def serve (slot : Slot) (answers : PdhAnswers) (now : ℕ) (want : Bool) : Slot :=
  match slot.group with
  | none => slot
  | some g =>
    let g := if g.isOpen then (g.collect answers now).2 else g
    { slot with group := some (g.maybeSleep now want) }

/-- One group's turn in a tick. -/
def turn (slot : Slot) (demanded : Bool) (answers : PdhAnswers) (now : ℕ) (paths : List Text)
    (requireCounters : Bool) : Slot :=
  let want := demanded && !slot.failed
  let slot := if want then slot.wake answers now paths requireCounters else slot
  slot.serve answers now want

theorem isOpen_eq (slot : Slot) (now : ℕ) :
    slot.isOpen = (slot.group.getD (QueryGroup.new now)).isOpen := by
  cases hgroup : slot.group <;> simp [isOpen, hgroup]

/-- Waking opens the group exactly where it was open or its query can be opened. -/
theorem isOpen_wake (slot : Slot) (answers : PdhAnswers) (now : ℕ) {paths : List Text}
    (hpaths : paths ≠ []) (requireCounters : Bool) :
    (slot.wake answers now paths requireCounters).isOpen =
      (slot.isOpen || answers.openQuery.isSome) := by
  rw [isOpen_eq slot now]
  unfold wake
  dsimp only
  split
  · rename_i hopen
    simp [isOpen, hopen]
  · exact QueryGroup.isOpen_open _ answers hpaths

/-- A group that is not open after waking is marked failed. -/
theorem wake_failed (slot : Slot) (answers : PdhAnswers) (now : ℕ) (paths : List Text)
    (requireCounters : Bool) :
    (slot.wake answers now paths requireCounters).isOpen = true ∨
      (slot.wake answers now paths requireCounters).failed = true := by
  unfold wake
  dsimp only
  split
  · rename_i hopen
    exact Or.inl hopen
  · dsimp only [isOpen, Option.any_some]
    cases (QueryGroup.open_ _ answers paths).isOpen <;> simp

/-- A group that is collected in the same turn never goes to sleep. -/
@[simp] theorem isOpen_serve (slot : Slot) (answers : PdhAnswers) (now : ℕ) (want : Bool) :
    (slot.serve answers now want).isOpen = slot.isOpen := by
  unfold serve isOpen
  cases hgroup : slot.group with
  | none => simp [hgroup]
  | some g =>
    dsimp only [Option.any_some]
    cases hopen : g.isOpen with
    | true =>
      rw [if_pos rfl]
      exact QueryGroup.isOpen_maybeSleep_collect hopen answers now want
    | false =>
      rw [if_neg Bool.false_ne_true]
      exact QueryGroup.isOpen_maybeSleep_of_closed hopen now want

@[simp] theorem failed_serve (slot : Slot) (answers : PdhAnswers) (now : ℕ) (want : Bool) :
    (slot.serve answers now want).failed = slot.failed := by
  unfold serve
  cases slot.group <;> rfl

section Turn

variable {slot : Slot} {demanded : Bool} {answers : PdhAnswers} {now : ℕ} {paths : List Text}
  {requireCounters : Bool}

theorem isOpen_turn_of_unwanted (h : (demanded && !slot.failed) = false) :
    (slot.turn demanded answers now paths requireCounters).isOpen = slot.isOpen := by
  unfold turn
  rw [h, isOpen_serve, if_neg Bool.false_ne_true]

theorem isOpen_turn_of_wanted (hdemanded : demanded = true) (hfailed : slot.failed = false)
    (hpaths : paths ≠ []) :
    (slot.turn demanded answers now paths requireCounters).isOpen =
      (slot.isOpen || answers.openQuery.isSome) := by
  unfold turn
  rw [isOpen_serve, hdemanded, hfailed]
  exact isOpen_wake slot answers now hpaths requireCounters

/-- A group stays marked failed, and no turn opens it any more. -/
theorem turn_of_failed (h : slot.failed = true) :
    (slot.turn demanded answers now paths requireCounters).failed = true ∧
      (slot.turn demanded answers now paths requireCounters).isOpen = slot.isOpen := by
  have hwant : (demanded && !slot.failed) = false := by simp [h]
  refine ⟨?_, isOpen_turn_of_unwanted hwant⟩
  unfold turn
  rw [hwant, failed_serve, if_neg Bool.false_ne_true]
  exact h

/-- After a turn that demands it a group is open or marked failed. -/
theorem isOpen_or_failed_turn (hdemanded : demanded = true) :
    (slot.turn demanded answers now paths requireCounters).isOpen = true ∨
      (slot.turn demanded answers now paths requireCounters).failed = true := by
  cases hfailed : slot.failed with
  | true => exact Or.inr (turn_of_failed hfailed).1
  | false =>
    unfold turn
    rw [isOpen_serve, failed_serve, hdemanded, hfailed]
    exact wake_failed slot answers now paths requireCounters

end Turn

end Slot

/-! ### The four groups -/

/-- The load of the engines, for each process. -/
def GPU_ENGINE_PATH : Text := "\\GPU Engine(*)\\Utilization Percentage".toList

/-- The dedicated memory of the adapters. -/
def GPU_ADAPTER_MEM_DEDICATED : Text := "\\GPU Adapter Memory(*)\\Dedicated Usage".toList

/-- Their shared memory. -/
def GPU_ADAPTER_MEM_SHARED : Text := "\\GPU Adapter Memory(*)\\Shared Usage".toList

/-- The dedicated GPU memory of the processes. -/
def GPU_PROCESS_MEM_DEDICATED : Text := "\\GPU Process Memory(*)\\Dedicated Usage".toList

/-- Their shared GPU memory. -/
def GPU_PROCESS_MEM_SHARED : Text := "\\GPU Process Memory(*)\\Shared Usage".toList

/-- How long a disk is idle. -/
def DISK_IDLE : Text := "\\PhysicalDisk(*)\\% Idle Time".toList

/-- What is read from a disk. -/
def DISK_READ : Text := "\\PhysicalDisk(*)\\Disk Read Bytes/sec".toList

/-- What is written to a disk. -/
def DISK_WRITE : Text := "\\PhysicalDisk(*)\\Disk Write Bytes/sec".toList

/-- How long a transfer takes. -/
def DISK_SEC : Text := "\\PhysicalDisk(*)\\Avg. Disk sec/Transfer".toList

/-- The speed of the processor. -/
def CPU_PERF_PCT : Text := "\\Processor Information(_Total)\\% Processor Performance".toList

/-- The time of interrupts. -/
def CPU_INTERRUPT_PCT : Text := "\\Processor Information(_Total)\\% Interrupt Time".toList

/-- The time of deferred procedure calls. -/
def CPU_DPC_PCT : Text := "\\Processor Information(_Total)\\% DPC Time".toList

/-- The groups of counters, each in its slot. -/
structure PdhCounters where
  gpu : Slot := {}
  disk : Slot := {}
  cpu : Slot := {}
  interrupt : Slot := {}

/-- Which of the four groups. -/
inductive PdhGroup where
  | gpu
  | disk
  | cpu
  | interrupt
  deriving DecidableEq

namespace PdhGroup

/-- A demand asks for a group. -/
def demanded : PdhGroup → TelemetryDemand → Bool
  | .gpu, demand => demand.anyGpu
  | .disk, demand => demand.wants .DISK_RATE
  | .cpu, demand => demand.wants .CPU_SPEED
  | .interrupt, demand => demand.wants .CORE_PROCESS

/-- The counters of a group. -/
def paths : PdhGroup → List Text
  | .gpu => [GPU_ENGINE_PATH, GPU_ADAPTER_MEM_DEDICATED, GPU_ADAPTER_MEM_SHARED,
      GPU_PROCESS_MEM_DEDICATED, GPU_PROCESS_MEM_SHARED]
  | .disk => [DISK_IDLE, DISK_READ, DISK_WRITE, DISK_SEC]
  | .cpu => [CPU_PERF_PCT]
  | .interrupt => [CPU_INTERRUPT_PCT, CPU_DPC_PCT]

/-- Where a missing counter path counts as a failure too. -/
def requireCounters : PdhGroup → Bool
  | .gpu | .disk => false
  | .cpu | .interrupt => true

theorem paths_ne_nil (group : PdhGroup) : group.paths ≠ [] := by cases group <;> nofun

end PdhGroup

namespace PdhCounters

/-- The slot of a group. -/
def slot (pdh : PdhCounters) : PdhGroup → Slot
  | .gpu => pdh.gpu
  | .disk => pdh.disk
  | .cpu => pdh.cpu
  | .interrupt => pdh.interrupt

/-- Collects all open groups once, opens what is demanded and closes what is not. -/
def tick (pdh : PdhCounters) (demand : TelemetryDemand) (answers : PdhGroup → PdhAnswers)
    (now : ℕ) : PdhCounters where
  gpu := pdh.gpu.turn demand.anyGpu (answers .gpu) now
    [GPU_ENGINE_PATH, GPU_ADAPTER_MEM_DEDICATED, GPU_ADAPTER_MEM_SHARED,
      GPU_PROCESS_MEM_DEDICATED, GPU_PROCESS_MEM_SHARED] false
  disk := pdh.disk.turn (demand.wants .DISK_RATE) (answers .disk) now
    [DISK_IDLE, DISK_READ, DISK_WRITE, DISK_SEC] false
  cpu := pdh.cpu.turn (demand.wants .CPU_SPEED) (answers .cpu) now [CPU_PERF_PCT] true
  interrupt := pdh.interrupt.turn (demand.wants .CORE_PROCESS) (answers .interrupt) now
    [CPU_INTERRUPT_PCT, CPU_DPC_PCT] true

theorem slot_tick (pdh : PdhCounters) (demand : TelemetryDemand) (answers : PdhGroup → PdhAnswers)
    (now : ℕ) (group : PdhGroup) :
    (pdh.tick demand answers now).slot group =
      (pdh.slot group).turn (group.demanded demand) (answers group) now group.paths
        group.requireCounters := by
  cases group <;> rfl

end PdhCounters

/-! ### Runs -/

/-- The counters between two ticks. -/
structure PdhRun where
  /-- When the last tick was. -/
  now : ℕ := 0
  pdh : PdhCounters := {}
  /-- When each group was last demanded. -/
  demandedAt : PdhGroup → Option ℕ := fun _ => none

/-- A tick some time after the last one; it happens at one instant. -/
structure PdhTick where
  gap : ℕ
  demand : TelemetryDemand
  answers : PdhGroup → PdhAnswers

namespace PdhRun

/-- When the tick happens. -/
def at_ (s : PdhRun) (t : PdhTick) : ℕ := s.now + t.gap

/-- A tick: the time passes, the groups follow the demand, and what was wanted is noted. -/
def tick (s : PdhRun) (t : PdhTick) : PdhRun where
  now := s.at_ t
  pdh := s.pdh.tick t.demand t.answers (s.at_ t)
  demandedAt group := if group.demanded t.demand then some (s.at_ t) else s.demandedAt group

/-- A tick as a step of a run. -/
def step (s : PdhRun) (t : PdhTick) : Option PdhRun := some (s.tick t)

/-- The tick demands the group, or one at most the keep-alive earlier did. -/
def Demanded (group : PdhGroup) (s : PdhRun) (t : PdhTick) : Prop :=
  ∃ demandedAt ∈ (s.tick t).demandedAt group, s.at_ t - demandedAt ≤ KEEPALIVE

/-- What a tick owes the demand for a group. -/
structure FollowsDemand (group : PdhGroup) (s : PdhRun) (t : PdhTick) : Prop where
  /-- A group that is demanded is open unless it is marked failed. -/
  wakes : group.demanded t.demand = true →
    ((s.tick t).pdh.slot group).isOpen = true ∨ ((s.tick t).pdh.slot group).failed = true
  /-- A group that closed opens again. -/
  reopens : group.demanded t.demand = true → (s.pdh.slot group).failed = false →
    (t.answers group).openQuery.isSome = true → ((s.tick t).pdh.slot group).isOpen = true
  /-- A group whose demand has been gone for longer than the keep-alive is closed. -/
  sleeps : ((s.tick t).pdh.slot group).isOpen = true → Demanded group s t
  /-- A group that is marked failed stays so and is never opened again. -/
  gives_up : (s.pdh.slot group).failed = true →
    ((s.tick t).pdh.slot group).failed = true ∧
      (((s.tick t).pdh.slot group).isOpen = true → (s.pdh.slot group).isOpen = true)

/-- The demand for an open group has not been gone for longer than the keep-alive. -/
def Needed (group : PdhGroup) (s : PdhRun) (t : PdhTick) : Prop :=
  group.demanded t.demand = false → (s.pdh.slot group).isOpen = true →
    ∃ demandedAt ∈ s.demandedAt group, s.at_ t - demandedAt ≤ KEEPALIVE

theorem slot_tick (s : PdhRun) (t : PdhTick) (group : PdhGroup) :
    (s.tick t).pdh.slot group =
      (s.pdh.slot group).turn (group.demanded t.demand) (t.answers group) (s.at_ t) group.paths
        group.requireCounters :=
  PdhCounters.slot_tick s.pdh t.demand t.answers (s.at_ t) group

theorem demanded_of_demand {s : PdhRun} {t : PdhTick} {group : PdhGroup}
    (h : group.demanded t.demand = true) : Demanded group s t :=
  ⟨s.at_ t, by simp [tick, h], by simp⟩

/-- **One tick follows the demand exactly where it does not find an open group whose demand has been
gone for too long.** -/
theorem followsDemand_iff (group : PdhGroup) (s : PdhRun) (t : PdhTick) :
    FollowsDemand group s t ↔ Needed group s t := by
  constructor
  · intro h hdemand hopen
    have hstays : ((s.tick t).pdh.slot group).isOpen = true := by
      rw [slot_tick, Slot.isOpen_turn_of_unwanted (by simp [hdemand])]
      exact hopen
    have hdemanded : Demanded group s t := h.sleeps hstays
    simpa [Demanded, tick, hdemand] using hdemanded
  · intro h
    refine ⟨fun hdemand => ?_, fun hdemand hfailed hopens => ?_, fun hopen => ?_, fun hfailed => ?_⟩
    · rw [slot_tick]
      exact Slot.isOpen_or_failed_turn hdemand
    · rw [slot_tick, Slot.isOpen_turn_of_wanted hdemand hfailed group.paths_ne_nil, hopens,
        Bool.or_true]
    · cases hdemand : group.demanded t.demand with
      | true => exact demanded_of_demand hdemand
      | false =>
        rw [slot_tick, Slot.isOpen_turn_of_unwanted (by simp [hdemand])] at hopen
        simpa [Demanded, tick, hdemand] using h hdemand hopen
    · rw [slot_tick]
      obtain ⟨hstays, hsame⟩ := Slot.turn_of_failed hfailed
      exact ⟨hstays, fun hopen => hsame ▸ hopen⟩

/-- **The groups follow the demand in every tick of a run exactly while it never leaves an open
group for longer than the keep-alive.** -/
theorem follows_iff (group : PdhGroup) (ticks : List PdhTick) :
    Machine.Along step (FollowsDemand group) {} ticks ↔
      Machine.Along step (Needed group) {} ticks :=
  Machine.along_iff_of_along (A := fun _ => True) (C := fun _ _ => True)
    (fun s t _ _ => followsDemand_iff group s t) (fun _ _ => trivial)
    (Machine.along_of_forall (fun _ _ => trivial) _ ticks)

/-! ### A demand that goes away -/

/-- A helper on which every call succeeds. -/
def willingHelper (_ : PdhGroup) : PdhAnswers where
  openQuery := some 1
  addCounter _ := true
  collectData := true

/-- The disk rates are shown once; a minute later another page is. -/
def leftForAMinute : List PdhTick :=
  [⟨0, .DISK_RATE, willingHelper⟩, ⟨60 * 1000000000, .CORE_PROCESS, willingHelper⟩]

/-- The disk group is then still open. -/
theorem not_follows_leftForAMinute :
    ¬ Machine.Along step (FollowsDemand .disk) {} leftForAMinute := by
  intro h
  obtain ⟨demandedAt, hat, hle⟩ := (h.2 _ rfl).1.sleeps (by decide +kernel)
  obtain rfl : demandedAt = 0 := Option.some.inj (hat.symm.trans rfl)
  exact absurd hle (by decide +kernel)

end PdhRun

end Taskman
