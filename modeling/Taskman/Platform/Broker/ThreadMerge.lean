import Taskman.Platform.Broker.Actions
import Mathlib.Data.List.Forall2

/-!
# Merging the broker's evidence about threads

The local list of a process's threads is completed by what the broker reports of them.  A report
is about a thread if it names its id and the creation time the local list has for it.

* `Completes` : what becomes of a thread;
* `matching` : the report the loop uses for a thread, the first one about it;
* `mergeThread_eq` : a thread keeps what it has and takes the rest from that report;
* `mergeProcessThreadDetails_completes` : **no thread is lost and none of its values replaced, what
  was missing is filled, merging again changes nothing, and the count is that of the threads that
  were filled.**
-/

namespace Taskman

namespace BrokeredActions

open Broker

/-- A report with the id of a thread and the creation time the local list has for it. -/
def About (thread : ProcessThread) (detail : ProcessThreadDetail) : Prop :=
  detail.tid = thread.tid ∧
    ∃ created, thread.createdEpochS = some created ∧ detail.createdEpochS = some created

/-- What becomes of a thread: only its start address and its cycles may change, only where they
were missing, and what was missing is what the first report about the thread has for it. -/
structure Completes (details : List ProcessThreadDetail) (thread thread' : ProcessThread) :
    Prop where
  others : thread' =
    { thread with startAddress := thread'.startAddress, cycles := thread'.cycles }
  startAddress_kept : ∀ address, thread.startAddress = some address →
    thread'.startAddress = some address
  cycles_kept : ∀ cycles, thread.cycles = some cycles → thread'.cycles = some cycles
  unreported : (∀ detail ∈ details, ¬ About thread detail) → thread' = thread
  filled : ∀ earlier detail later, details = earlier ++ detail :: later →
    (∀ other ∈ earlier, ¬ About thread other) → About thread detail →
    (thread.startAddress = none → thread'.startAddress = detail.startAddress) ∧
      (thread.cycles = none → thread'.cycles = detail.cycles)

/-! ### One thread -/

/-- The report the loop uses for a thread. -/
def matching (details : List ProcessThreadDetail) (thread : ProcessThread) :
    Option ProcessThreadDetail := do
  let created ← thread.createdEpochS
  details.find? fun detail => detail.tid == thread.tid && detail.createdEpochS == some created

/-- A thread completed by the report about it, if there is one. -/
def ProcessThread.completed (thread : ProcessThread) (report : Option ProcessThreadDetail) :
    ProcessThread :=
  { thread with
    startAddress := thread.startAddress.or (report.bind (·.startAddress))
    cycles := thread.cycles.or (report.bind (·.cycles)) }

theorem ProcessThread.completed_none (thread : ProcessThread) : thread.completed none = thread := by
  simp [ProcessThread.completed]

theorem ProcessThread.completed_of_isSome {thread : ProcessThread}
    (h : (thread.startAddress.isSome && thread.cycles.isSome) = true)
    (report : Option ProcessThreadDetail) : thread.completed report = thread := by
  obtain ⟨hstart, hcycles⟩ := Bool.and_eq_true_iff.mp h
  rw [ProcessThread.completed, Option.or_of_isSome hstart, Option.or_of_isSome hcycles]

theorem matching_of_created {details : List ProcessThreadDetail} {thread : ProcessThread}
    {created : ℤ} (h : thread.createdEpochS = some created) :
    matching details thread = details.find? fun detail =>
      detail.tid == thread.tid && detail.createdEpochS == some created := by
  rw [matching, h]
  rfl

theorem about_iff {thread : ProcessThread} {detail : ProcessThreadDetail} {created : ℤ}
    (h : thread.createdEpochS = some created) :
    About thread detail ↔
      (detail.tid == thread.tid && detail.createdEpochS == some created) = true := by
  simp [About, h]

/-- **The loop uses the first report about a thread.** -/
theorem matching_eq_some {earlier later : List ProcessThreadDetail} {thread : ProcessThread}
    {detail : ProcessThreadDetail} (hearlier : ∀ other ∈ earlier, ¬ About thread other)
    (hdetail : About thread detail) :
    matching (earlier ++ detail :: later) thread = some detail := by
  obtain ⟨created, hcreated, -⟩ := hdetail.2
  rw [matching_of_created hcreated, List.find?_append,
    List.find?_eq_none.mpr fun other hother =>
      fun h => hearlier other hother ((about_iff hcreated).mpr h),
    Option.none_or]
  exact List.find?_cons_of_pos ((about_iff hcreated).mp hdetail)

/-- Without a report about a thread the loop uses none. -/
theorem matching_eq_none {details : List ProcessThreadDetail} {thread : ProcessThread}
    (h : ∀ detail ∈ details, ¬ About thread detail) : matching details thread = none := by
  cases hcreated : thread.createdEpochS with
  | none =>
    rw [matching, hcreated]
    rfl
  | some created =>
    rw [matching_of_created hcreated]
    exact List.find?_eq_none.mpr fun detail hdetail hmatch =>
      h detail hdetail ((about_iff hcreated).mpr hmatch)

theorem fillMissing_eq (thread : ProcessThread) (detail : ProcessThreadDetail) :
    fillMissing thread detail = thread.completed (some detail) := by
  rcases thread with ⟨tid, startAddress, _, _, _, _, _, created, _, _, cycles⟩
  cases startAddress <;> cases cycles <;> rfl

/-- A thread is changed just if one of its two values is. -/
theorem ProcessThread.completed_ne_iff (thread : ProcessThread)
    (report : Option ProcessThreadDetail) :
    thread.completed report ≠ thread ↔
      ((thread.completed report).startAddress, (thread.completed report).cycles) ≠
        (thread.startAddress, thread.cycles) := by
  refine not_congr ⟨fun h => by rw [h], fun h => ?_⟩
  obtain ⟨hstart, hcycles⟩ := Prod.mk.inj h
  show ({ thread with
    startAddress := (thread.completed report).startAddress
    cycles := (thread.completed report).cycles } : ProcessThread) = thread
  rw [hstart, hcycles]

/-- A thread with what it has and the rest from the report about it. -/
def completion (details : List ProcessThreadDetail) (thread : ProcessThread) : ProcessThread :=
  thread.completed (matching details thread)

/-- **A thread keeps what it has and takes the rest from the report about it**, and it is counted
if that changes it. -/
theorem mergeThread_eq (details : List ProcessThreadDetail) (thread : ProcessThread) :
    mergeThread details thread =
      (completion details thread, decide (completion details thread ≠ thread)) := by
  have hsame : (thread, false) = (thread, decide (thread ≠ thread)) := by simp
  unfold mergeThread completion
  split_ifs with hknown
  · rw [ProcessThread.completed_of_isSome hknown]
    exact hsame
  · cases hcreated : thread.createdEpochS with
    | none =>
      rw [matching, hcreated]
      show _ = (thread.completed none, decide (thread.completed none ≠ thread))
      rw [ProcessThread.completed_none]
      exact hsame
    | some created =>
      rw [matching_of_created hcreated]
      simp only
      split
      next hfind =>
        rw [hfind, ProcessThread.completed_none]
        exact hsame
      next detail hfind =>
        rw [hfind, fillMissing_eq]
        exact Prod.ext rfl (decide_eq_decide.mpr (ProcessThread.completed_ne_iff _ _).symm)

/-- Filling keeps what identifies a thread, so the same report is used again. -/
theorem matching_completed (details : List ProcessThreadDetail) (thread : ProcessThread)
    (report : Option ProcessThreadDetail) :
    matching details (thread.completed report) = matching details thread := rfl

theorem completion_completion (details : List ProcessThreadDetail) (thread : ProcessThread) :
    completion details (completion details thread) = completion details thread := by
  rw [completion, completion, matching_completed]
  simp only [ProcessThread.completed, Option.or_assoc, Option.or_self]

theorem completes_completion (details : List ProcessThreadDetail) (thread : ProcessThread) :
    Completes details thread (completion details thread) where
  others := rfl
  startAddress_kept address h := by
    show thread.startAddress.or _ = _
    rw [h, Option.some_or]
  cycles_kept cycles h := by
    show thread.cycles.or _ = _
    rw [h, Option.some_or]
  unreported h := by
    rw [completion, matching_eq_none h, ProcessThread.completed_none]
  filled := by
    rintro earlier detail later rfl hearlier hdetail
    rw [completion, matching_eq_some hearlier hdetail]
    refine ⟨fun h => ?_, fun h => ?_⟩
    · show thread.startAddress.or detail.startAddress = _
      rw [h, Option.none_or]
    · show thread.cycles.or detail.cycles = _
      rw [h, Option.none_or]

/-! ### All threads -/

theorem mergeThreads_eq (details : List ProcessThreadDetail) (threads : List ProcessThread) :
    mergeThreads details threads = (threads.map (completion details),
      threads.countP fun thread => completion details thread ≠ thread) := by
  induction threads with
  | nil => rfl
  | cons thread threads ih =>
    rw [mergeThreads, mergeThread_eq, ih, List.countP_cons]
    by_cases hchanged : completion details thread ≠ thread
    · simp [hchanged]
    · simp [not_ne_iff.mp hchanged]

/-- **No thread is lost and none of its values replaced.**  Every thread keeps its place; a start
address or cycles that were missing are those of the first report with the thread's id and creation
time, and nothing else changes.  The count is that of the threads that were changed, and merging the
same reports again changes none. -/
theorem mergeProcessThreadDetails_completes (threads : ProcessThreads)
    (details : List ProcessThreadDetail) :
    (mergeProcessThreadDetails threads details).1.processBasePriority =
        threads.processBasePriority ∧
      List.Forall₂ (Completes details) threads.threads
        (mergeProcessThreadDetails threads details).1.threads ∧
      (mergeProcessThreadDetails threads details).2 =
        (threads.threads.zip (mergeProcessThreadDetails threads details).1.threads).countP
          (fun pair => pair.2 ≠ pair.1) ∧
      mergeProcessThreadDetails (mergeProcessThreadDetails threads details).1 details =
        ((mergeProcessThreadDetails threads details).1, 0) := by
  unfold mergeProcessThreadDetails
  simp only [mergeThreads_eq]
  refine ⟨trivial, ?_, ?_, ?_⟩
  · exact List.forall₂_map_right_iff.mpr
      (List.forall₂_same.mpr fun thread _ => completes_completion details thread)
  · rw [← List.map_prod_left_eq_zip, List.countP_map]
    rfl
  · have hmap : (threads.threads.map (completion details)).map (completion details) =
        threads.threads.map (completion details) := by
      rw [List.map_map]
      exact List.map_congr_left fun thread _ => completion_completion details thread
    have hcount : (threads.threads.map (completion details)).countP
        (fun thread => completion details thread ≠ thread) = 0 := by
      rw [List.countP_map, List.countP_eq_zero]
      intro thread _
      simp [completion_completion]
    rw [hmap, hcount]

/-- A thread of the system process, created at a time. -/
def listed (tid : ℕ) (created : Option ℤ) (startAddress : Option UInt64) (cycles : Option ℕ) :
    ProcessThread where
  tid := tid
  startAddress := startAddress
  priority := 8
  basePriority := 8
  contextSwitches := 0
  kernelTime100ns := 0
  userTime100ns := 0
  createdEpochS := created
  state := .waiting
  waitReason := 0
  cycles := cycles

/-- Of three threads one is completed by the first report about it, one has a report of another
thread with its id, and one was complete. -/
theorem mergeProcessThreadDetails_completes_filled :
    let threads : ProcessThreads := ⟨8, [listed 4 (some 10) none (some 7),
      listed 5 (some 10) none none, listed 6 (some 10) (some 64) (some 1)]⟩
    let details : List ProcessThreadDetail := [⟨5, some 9, some 80, some 2⟩,
      ⟨4, some 10, some 96, some 3⟩, ⟨4, some 10, some 112, none⟩, ⟨6, some 10, some 0, none⟩]
    (mergeProcessThreadDetails threads details).1.threads = [listed 4 (some 10) (some 96) (some 7),
        listed 5 (some 10) none none, listed 6 (some 10) (some 64) (some 1)] ∧
      (mergeProcessThreadDetails threads details).2 = 1 ∧
      mergeProcessThreadDetails (mergeProcessThreadDetails threads details).1 details =
        ((mergeProcessThreadDetails threads details).1, 0) := by
  intro threads details
  exact ⟨by decide, by decide, (mergeProcessThreadDetails_completes threads details).2.2.2⟩

end BrokeredActions

end Taskman
