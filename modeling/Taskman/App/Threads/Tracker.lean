import Mathlib.Algebra.Order.Field.Rat
import Taskman.Platform.Broker.Actions

/-!
# Activity of the threads of a process

The threads page compares every snapshot of a process's threads with the one before.  A thread is
idle when for five seconds its counters stood still and it was not seen running; it is recent when
execution was observed less than five seconds ago; until one of the two is known it is being
observed.  Instants are in ns.

* `Threads.observe` : what one thread's counters say, after what was kept of the last snapshot;
* `Threads.Tracker.apply` : one snapshot;
* `Threads.State.receive` : what the page does with the result of a query;
* `Threads.Tracker.apply_rows`, `Threads.Tracker.apply_tracks` : **every thread is compared with its
  own entry of the last snapshot**.
-/

namespace Taskman

namespace Threads

open BrokeredActions

/-- How long a thread must be watched without any sign of running before it is called idle, in
ns. -/
def DORMANT_AFTER : ℕ := 5000000000

/-- Why nothing can be said of a thread yet. -/
inductive ObservingReason where
  | firstObservation
  | afterGap
  deriving DecidableEq

/-- What is said of the activity of a thread. -/
inductive Activity where
  /-- The kernel reported this thread as using a processor in this sample. -/
  | running
  /-- Execution was observed inside a continuous recent sampling window. -/
  | recent
  /-- Evidence is still being collected. -/
  | observing (elapsed : ℕ) (reason : ObservingReason)
  /-- No execution was observed for at least `idle`. -/
  | idle (idle : ℕ)
  deriving DecidableEq

/-- Nothing is said yet. -/
def Activity.isObserving : Activity → Bool
  | .observing _ _ => true
  | _ => false

/-- A row of the page. -/
structure ThreadRow where
  thread : ProcessThread
  /-- Share of the machine's CPU capacity since the previous snapshot. -/
  cpuPct : Option ℚ
  /-- Share of the machine's CPU capacity across the whole observation. -/
  avgCpuPct : Option ℚ
  cyclesDelta : Option ℕ
  activity : Activity
  deriving DecidableEq

/-- What is kept of a thread between snapshots. -/
structure Track where
  createdEpochS : Option ℤ
  contextSwitches : ℕ
  cpu100ns : ℕ
  cycles : Option ℕ
  sampled : ℕ
  firstSeen : ℕ
  firstCpu100ns : ℕ
  lastActive : Option ℕ
  observing : Option (ℕ × ObservingReason)
  deriving DecidableEq

/-- The instant the idle time of a thread is counted from. -/
def Track.since (track : Track) : ℕ := track.lastActive.getD track.firstSeen

/-! ### One thread -/

/-- CPU time in kernel and user mode, a saturating sum of `u64`. -/
def cpu100ns (thread : ProcessThread) : ℕ :=
  min (thread.kernelTime100ns + thread.userTime100ns) (2 ^ 64 - 1)

/-- A counter that is known on both sides is not what it was. -/
def advanced (thread : ProcessThread) (prev : Track) : Bool :=
  decide (thread.contextSwitches ≠ prev.contextSwitches) ||
    decide (cpu100ns thread ≠ prev.cpu100ns) ||
      match thread.cycles, prev.cycles with
      | some now, some before => decide (now ≠ before)
      | _, _ => false

/-- The share of `logicalCpus` processors that is used over `wall` ns, in percent. -/
def share (busy100ns wall logicalCpus : ℕ) : Option ℚ :=
  if 0 < wall ∧ 0 < logicalCpus then
    some (busy100ns / 10 ^ 7 / (wall / 10 ^ 9 * logicalCpus) * 100)
  else none

/-- What the comparison with the last snapshot gives. -/
structure Compared where
  firstSeen : ℕ
  firstCpu100ns : ℕ
  lastActive : Option ℕ
  observing : Option (ℕ × ObservingReason)
  cpuPct : Option ℚ
  avgCpuPct : Option ℚ
  cyclesDelta : Option ℕ

/-- A thread compared with what is known of it. -/
def compare (previous : Option Track) (thread : ProcessThread) (taken logicalCpus : ℕ) : Compared :=
  match previous with
  | some prev =>
    { firstSeen := prev.firstSeen
      firstCpu100ns := prev.firstCpu100ns
      lastActive := if advanced thread prev then some taken else prev.lastActive
      observing :=
        if advanced thread prev then
          if DORMANT_AFTER < taken - prev.sampled then some (taken, .afterGap) else none
        else prev.observing
      cpuPct :=
        (share (cpu100ns thread - prev.cpu100ns) (taken - prev.sampled) logicalCpus).map (min · 100)
      avgCpuPct :=
        (share (cpu100ns thread - prev.firstCpu100ns) (taken - prev.firstSeen) logicalCpus).map
          fun pct => max 0 (min pct 100)
      cyclesDelta :=
        match thread.cycles, prev.cycles with
        | some now, some before => some (now - before)
        | _, _ => none }
  | none =>
    { firstSeen := taken
      firstCpu100ns := cpu100ns thread
      lastActive := none
      observing := some (taken, .firstObservation)
      cpuPct := none
      avgCpuPct := none
      cyclesDelta := none }

/-- The activity of a thread from the evidence. -/
def activityOf (running : Bool) (taken firstSeen : ℕ) (lastActive : Option ℕ)
    (observing : Option (ℕ × ObservingReason)) : Activity :=
  let idle := taken - lastActive.getD firstSeen
  if running then .running
  else
    match observing with
    | some (started, reason) =>
      if taken - started < DORMANT_AFTER then .observing (taken - started) reason
      else if DORMANT_AFTER ≤ idle then .idle idle
      else .recent
    | none =>
      if DORMANT_AFTER ≤ idle then .idle idle
      else if lastActive.isSome then .recent
      else .observing 0 .firstObservation

/-- What one thread's counters say, and what is kept of them. -/
def observe (previous : Option Track) (thread : ProcessThread) (taken logicalCpus : ℕ) :
    Track × ThreadRow :=
  let running := decide (thread.state = .running)
  let compared := compare previous thread taken logicalCpus
  let lastActive := if running then some taken else compared.lastActive
  let observing := if running then none else compared.observing
  let activity := activityOf running taken compared.firstSeen lastActive observing
  ({ createdEpochS := thread.createdEpochS
     contextSwitches := thread.contextSwitches
     cpu100ns := cpu100ns thread
     cycles := thread.cycles
     sampled := taken
     firstSeen := compared.firstSeen
     firstCpu100ns := compared.firstCpu100ns
     lastActive := lastActive
     observing := if activity.isObserving then observing else none },
   { thread := thread
     cpuPct := compared.cpuPct
     avgCpuPct := compared.avgCpuPct
     cyclesDelta := compared.cyclesDelta
     activity := activity })

@[simp]
theorem observe_thread (previous : Option Track) (thread : ProcessThread) (taken cpus : ℕ) :
    (observe previous thread taken cpus).2.thread = thread := rfl

/-! ### A snapshot -/

/-- Per-thread history between snapshots, by thread id. -/
structure Tracker where
  tracks : ℕ → Option Track := fun _ => none

namespace Tracker

/-- A thread id names the same thread only while its creation time matches. -/
def previous (tracker : Tracker) (thread : ProcessThread) : Option Track :=
  (tracker.tracks thread.tid).filter fun track => track.createdEpochS = thread.createdEpochS

/-- Take the entry of a thread, and put its new one into the next tracker. -/
def visit (taken logicalCpus : ℕ) (s : Tracker × Tracker × List ThreadRow)
    (thread : ProcessThread) : Tracker × Tracker × List ThreadRow :=
  let seen := observe (s.1.previous thread) thread taken logicalCpus
  ({ tracks := Function.update s.1.tracks thread.tid none },
    { tracks := Function.update s.2.1.tracks thread.tid (some seen.1) }, s.2.2 ++ [seen.2])

/-- A snapshot: the rows, and what is known afterwards. -/
def apply (tracker : Tracker) (threads : List ProcessThread) (taken logicalCpus : ℕ) :
    Tracker × List ThreadRow :=
  (threads.foldl (visit taken logicalCpus) (tracker, {}, [])).2

variable {tracker : Tracker} {threads : List ProcessThread} {taken cpus : ℕ}

theorem previous_update {tid : ℕ} {thread : ProcessThread} (h : thread.tid ≠ tid) :
    previous { tracks := Function.update tracker.tracks tid none } thread =
      tracker.previous thread :=
  congrArg (Option.filter _) (Function.update_of_ne h none tracker.tracks)

/-- What a pass over threads with different ids leaves. -/
theorem foldl_visit (threads : List ProcessThread) :
    ∀ (tracker next : Tracker) (rows : List ThreadRow),
      (threads.map ProcessThread.tid).Nodup →
      (threads.foldl (visit taken cpus) (tracker, next, rows)).2.2 =
          rows ++ threads.map (fun thread =>
            (observe (tracker.previous thread) thread taken cpus).2) ∧
        (∀ thread ∈ threads,
          (threads.foldl (visit taken cpus) (tracker, next, rows)).2.1.tracks thread.tid =
            some (observe (tracker.previous thread) thread taken cpus).1) ∧
        ∀ tid, tid ∉ threads.map ProcessThread.tid →
          (threads.foldl (visit taken cpus) (tracker, next, rows)).2.1.tracks tid =
            next.tracks tid := by
  induction threads with
  | nil => simp
  | cons thread threads ih =>
    intro tracker next rows hnodup
    obtain ⟨hnew, hnodup⟩ := List.nodup_cons.mp hnodup
    have hne : ∀ other ∈ threads, other.tid ≠ thread.tid := fun other hother heq =>
      hnew (heq ▸ List.mem_map_of_mem hother)
    obtain ⟨hrows, hmem, hother⟩ := ih _ _ _ hnodup
    refine ⟨?_, ?_, fun tid htid => ?_⟩
    · rw [List.foldl_cons, visit, hrows, List.append_assoc, List.map_cons, List.singleton_append]
      congr 2
      exact List.map_congr_left fun other hother => by rw [previous_update (hne other hother)]
    · intro other hmem'
      rw [List.foldl_cons, visit]
      rcases List.mem_cons.mp hmem' with rfl | hmem'
      · exact (hother _ hnew).trans (Function.update_self ..)
      · rw [hmem other hmem', previous_update (hne other hmem')]
    · rw [List.map_cons, List.mem_cons, not_or] at htid
      rw [List.foldl_cons, visit]
      exact (hother tid htid.2).trans (Function.update_of_ne htid.1 ..)

variable (tracker taken cpus) (hnodup : (threads.map ProcessThread.tid).Nodup)

include hnodup

/-- **Every listed thread has its row, from its own entry of the last snapshot.** -/
theorem apply_rows : (tracker.apply threads taken cpus).2 =
    threads.map fun thread => (observe (tracker.previous thread) thread taken cpus).2 := by
  rw [apply, (foldl_visit threads tracker {} [] hnodup).1, List.nil_append]

/-- **What is kept of a listed thread.** -/
theorem apply_tracks {thread : ProcessThread} (hthread : thread ∈ threads) :
    (tracker.apply threads taken cpus).1.tracks thread.tid =
      some (observe (tracker.previous thread) thread taken cpus).1 :=
  (foldl_visit threads tracker {} [] hnodup).2.1 thread hthread

theorem apply_tracks_of_notMem {tid : ℕ} (htid : tid ∉ threads.map ProcessThread.tid) :
    (tracker.apply threads taken cpus).1.tracks tid = none :=
  (foldl_visit threads tracker {} [] hnodup).2.2 tid htid

end Tracker

/-! ### The page -/

/-- What the page keeps of the queries. -/
structure State where
  tracker : Tracker := {}
  rows : List ThreadRow := []
  processBasePriority : Option ℤ := none
  error : Option Text := none
  lastSample : Option ℕ := none
  loaded : Bool := false
  fresh : Bool := false

/-- The part of `tick` that takes the result of a query: the threads with the instant before the
query.  The processors are those of the latest system snapshot, or what the machine reports. -/
def State.receive (latest : Option ℕ) (parallelism : ℕ) (state : State)
    (result : Except Text (ProcessThreads × ℕ)) : State :=
  match result with
  | .ok (snapshot, taken) =>
    let cpus := (latest.filter (0 < ·)).getD parallelism
    let applied := state.tracker.apply snapshot.threads taken cpus
    { tracker := applied.1, rows := applied.2,
      processBasePriority := some snapshot.processBasePriority, error := none,
      lastSample := some taken, loaded := true, fresh := true }
  | .error error => { state with error := some error, loaded := true }

/-- **Failed queries leave the history alone**: the rows are those of the snapshots that
succeeded. -/
theorem State.receive_all (latest : Option ℕ) (parallelism : ℕ)
    (results : List (Except Text (ProcessThreads × ℕ))) :
    ∀ state : State,
      let applied := (results.filterMap Except.toOption).foldl
        (fun s snapshot => s.1.apply snapshot.1.threads snapshot.2
          ((latest.filter (0 < ·)).getD parallelism)) (state.tracker, state.rows)
      (results.foldl (State.receive latest parallelism) state).tracker = applied.1 ∧
        (results.foldl (State.receive latest parallelism) state).rows = applied.2 := by
  induction results with
  | nil => exact fun _ => ⟨rfl, rfl⟩
  | cons result results ih =>
    intro state
    cases result with
    | ok snapshot => exact ih _
    | error error => exact ih _

end Threads

end Taskman
