import Taskman.App.Threads.Idle
import Mathlib.Data.List.Nodup

/-!
# The activity of a thread from its history

The tracker keeps of every thread when it was last active, and since when and why it is being
observed.  What it shows follows from the snapshots alone: from those in a row that list the thread
under one creation time, and the last of them that shows a sign of running.

* `Threads.Presence` : the snapshots in a row that list a thread;
* `Threads.LastEvidence` : the last of them that shows a sign of running, or else the first;
* `Threads.activityOfHistory`, `Threads.averageOfHistory` : what these say;
* `Threads.Remembers` : what the entry of a thread keeps of them;
* `Threads.activity_of_history` : **the page shows what the history says**.
-/

namespace Taskman

namespace Threads

open BrokeredActions

/-! ### Histories -/

/-- Snapshots whose counters are read when they are taken. -/
def Timing.ofStamps (taken : ℕ → ℕ) (h : StrictMono taken) : Timing where
  taken := taken
  read := taken
  taken_le _ := le_rfl
  read_le n := (h n.lt_succ_self).le

/-- The snapshots from `m` to `n` list a thread, and the one before them does not. -/
structure Presence (threads : ℕ → List ProcessThread) (id : ThreadId) (seen : ℕ → ProcessThread)
    (m n : ℕ) : Prop where
  le : m ≤ n
  listed : ∀ i, m ≤ i → i ≤ n → seen i ∈ threads i
  same : ∀ i, m ≤ i → i ≤ n → idOf (seen i) = id
  begins : ∀ j, j + 1 = m → ∀ thread ∈ threads j, idOf thread ≠ id

/-- A snapshot shows the thread running, or a counter that differs from the snapshot before. -/
def Evident (seen : ℕ → ProcessThread) (m i : ℕ) : Prop :=
  (seen i).state = .running ∨ ∃ j, m ≤ j ∧ j + 1 = i ∧ Advanced (seen j) (seen i)

/-- The last snapshot with a sign of running, or the first if there is none. -/
structure LastEvidence (seen : ℕ → ProcessThread) (m n e : ℕ) : Prop where
  ge : m ≤ e
  le : e ≤ n
  evident : e = m ∨ Evident seen m e
  last : ∀ i, e < i → i ≤ n → ¬ Evident seen m i

/-- There is one such snapshot only. -/
theorem LastEvidence.unique {seen : ℕ → ProcessThread} {m n e e' : ℕ}
    (h : LastEvidence seen m n e) (h' : LastEvidence seen m n e') : e = e' := by
  have hle : ∀ {e e'}, LastEvidence seen m n e → LastEvidence seen m n e' → e' ≤ e := by
    intro e e' h h'
    by_contra hlt
    rcases h'.evident with rfl | hevident
    · exact hlt h.ge
    · exact h.last e' (Nat.not_le.mp hlt) h'.le hevident
  exact le_antisymm (hle h' h) (hle h h')

theorem lastEvidence_of_evident {seen : ℕ → ProcessThread} {m n : ℕ} (hmn : m ≤ n)
    (h : n = m ∨ Evident seen m n) : LastEvidence seen m n n :=
  ⟨hmn, le_rfl, h, fun _ hlt hle => absurd hle (Nat.not_le.mpr hlt)⟩

theorem LastEvidence.succ {seen : ℕ → ProcessThread} {m n e : ℕ} (h : LastEvidence seen m n e)
    (hnone : ¬ Evident seen m (n + 1)) : LastEvidence seen m (n + 1) e := by
  refine ⟨h.ge, Nat.le_succ_of_le h.le, h.evident, fun i hlt hle => ?_⟩
  rcases Nat.lt_or_eq_of_le hle with hlt' | rfl
  · exact h.last i hlt (Nat.le_of_lt_succ hlt')
  · exact hnone

/-- Why a thread that was last active at `e` is still being observed. -/
def whyObserving (taken : ℕ → ℕ) (seen : ℕ → ProcessThread) (m e : ℕ) : Option ObservingReason :=
  if (seen e).state = .running then none
  else if e = m then some .firstObservation
  else if DORMANT_AFTER < taken e - taken (e - 1) then some .afterGap
  else none

/-- The activity of a thread at `n` that was last active at `e`, listed since `m`. -/
def activityOfHistory (taken : ℕ → ℕ) (seen : ℕ → ProcessThread) (m n e : ℕ) : Activity :=
  if (seen n).state = .running then .running
  else if DORMANT_AFTER ≤ taken n - taken e then .idle (taken n - taken e)
  else
    match whyObserving taken seen m e with
    | some reason => .observing (taken n - taken e) reason
    | none => .recent

/-- The average use of the processors from the first snapshot that lists a thread to the last. -/
def averageOfHistory (taken : ℕ → ℕ) (seen : ℕ → ProcessThread) (m n logicalCpus : ℕ) : Option ℚ :=
  if m = n then none
  else
    (share (cpu100ns (seen n) - cpu100ns (seen m)) (taken n - taken m) logicalCpus).map
      fun pct => max 0 (min pct 100)

/-! ### What the tracker keeps of a history -/

section History

variable {taken : ℕ → ℕ} {seen : ℕ → ProcessThread} {m n e : ℕ}

/-- What the entry of a thread keeps of its history. -/
structure Remembers (taken : ℕ → ℕ) (seen : ℕ → ProcessThread) (m n e : ℕ)
    (entry : Track × ThreadRow) : Prop where
  evidence : LastEvidence seen m n e
  firstSeen : entry.1.firstSeen = taken m
  firstCpu : entry.1.firstCpu100ns = cpu100ns (seen m)
  lastActive : entry.1.lastActive =
    if whyObserving taken seen m e = some .firstObservation then none else some (taken e)
  /-- The observation is forgotten once the thread is idle. -/
  observing : entry.1.observing =
    if DORMANT_AFTER ≤ taken n - taken e then none
    else (whyObserving taken seen m e).map fun reason => (taken e, reason)
  activity : entry.2.activity = activityOfHistory taken seen m n e

theorem whyObserving_running (h : (seen e).state = .running) :
    whyObserving taken seen m e = none := if_pos h

theorem whyObserving_first (h : (seen m).state ≠ .running) :
    whyObserving taken seen m m = some .firstObservation := by
  rw [whyObserving, if_neg h, if_pos rfl]

theorem whyObserving_later (taken : ℕ → ℕ) (h : (seen e).state ≠ .running) (hne : e ≠ m) :
    whyObserving taken seen m e =
      if DORMANT_AFTER < taken e - taken (e - 1) then some .afterGap else none := by
  rw [whyObserving, if_neg h, if_neg hne]

theorem activityOfHistory_running (h : (seen n).state = .running) :
    activityOfHistory taken seen m n e = .running := if_pos h

theorem activityOfHistory_self (h : (seen n).state ≠ .running) :
    activityOfHistory taken seen m n n =
      match whyObserving taken seen m n with
      | some reason => .observing 0 reason
      | none => .recent := by
  have hpos : ¬ DORMANT_AFTER ≤ 0 := by decide
  rw [activityOfHistory, if_neg h, Nat.sub_self, if_neg hpos]

/-- A thread that is listed for the first time. -/
theorem remembers_first (taken : ℕ → ℕ) (seen : ℕ → ProcessThread) (m cpus : ℕ) :
    Remembers taken seen m m m (observe none (seen m) (taken m) cpus) := by
  have hpos : ¬ DORMANT_AFTER ≤ taken m - taken m := by simp [DORMANT_AFTER]
  have hevidence : LastEvidence seen m m m := lastEvidence_of_evident le_rfl (Or.inl rfl)
  by_cases hstate : (seen m).state = .running
  · obtain ⟨hactive, hobserving, hactivity⟩ := observe_running none (taken m) cpus hstate
    have hwhy : whyObserving taken seen m m = none := whyObserving_running hstate
    exact ⟨hevidence, rfl, rfl, by simp [hactive, hwhy], by simp [hobserving, hwhy],
      hactivity.trans (activityOfHistory_running hstate).symm⟩
  · obtain ⟨hactive, hfirst, hobserving, hactivity⟩ := observe_first (taken m) cpus hstate
    have hwhy : whyObserving taken seen m m = some .firstObservation := whyObserving_first hstate
    refine ⟨hevidence, hfirst, rfl, by simp [hactive, hwhy], ?_, ?_⟩
    · rw [hobserving, if_neg hpos, hwhy]
      rfl
    · rw [hactivity, activityOfHistory_self hstate, hwhy]

/-- A thread with a sign of running in the next snapshot. -/
theorem Remembers.active {prev : Track × ThreadRow} (h : Remembers taken seen m n e prev)
    (hsampled : prev.1.sampled = taken n) (cpus : ℕ)
    (hadvanced : advanced (seen (n + 1)) prev.1 = true ↔ Advanced (seen n) (seen (n + 1)))
    (hevident : Evident seen m (n + 1)) :
    Remembers taken seen m (n + 1) (n + 1)
      (observe (some prev.1) (seen (n + 1)) (taken (n + 1)) cpus) := by
  have hmn : m ≤ n := h.evidence.ge.trans h.evidence.le
  have hne : n + 1 ≠ m := Nat.ne_of_gt (Nat.lt_succ_of_le hmn)
  have hpos : ¬ DORMANT_AFTER ≤ taken (n + 1) - taken (n + 1) := by simp [DORMANT_AFTER]
  have hevidence : LastEvidence seen m (n + 1) (n + 1) :=
    lastEvidence_of_evident (Nat.le_succ_of_le hmn) (Or.inr hevident)
  by_cases hstate : (seen (n + 1)).state = .running
  · obtain ⟨hactive, hobserving, hactivity⟩ :=
      observe_running (some prev.1) (taken (n + 1)) cpus hstate
    have hwhy : whyObserving taken seen m (n + 1) = none := whyObserving_running hstate
    exact ⟨hevidence, h.firstSeen, h.firstCpu, by simp [hactive, hwhy], by simp [hobserving, hwhy],
      hactivity.trans (activityOfHistory_running hstate).symm⟩
  · have hcounted : advanced (seen (n + 1)) prev.1 = true := by
      obtain ⟨j, -, hj, hchange⟩ := hevident.resolve_left hstate
      obtain rfl : j = n := Nat.succ_injective hj
      exact hadvanced.mpr hchange
    have hwhy := whyObserving_later taken hstate hne
    rw [Nat.add_sub_cancel, ← hsampled] at hwhy
    by_cases hgap : DORMANT_AFTER < taken (n + 1) - prev.1.sampled
    · obtain ⟨hactive, hobserving, hactivity⟩ := observe_afterGap cpus hstate hcounted hgap
      rw [if_pos hgap] at hwhy
      refine ⟨hevidence, h.firstSeen, h.firstCpu, by simp [hactive, hwhy], ?_, ?_⟩
      · rw [hobserving, if_neg hpos, hwhy]
        rfl
      · rw [hactivity, activityOfHistory_self hstate, hwhy]
    · obtain ⟨hactive, hobserving, hactivity⟩ := observe_advanced cpus hstate hcounted hgap
      rw [if_neg hgap] at hwhy
      refine ⟨hevidence, h.firstSeen, h.firstCpu, by simp [hactive, hwhy], ?_, ?_⟩
      · simp [hobserving, hwhy]
      · rw [hactivity, activityOfHistory_self hstate, hwhy]

/-- A thread without one. -/
theorem Remembers.still {prev : Track × ThreadRow} (h : Remembers taken seen m n e prev)
    (htaken : taken n ≤ taken (n + 1)) (cpus : ℕ)
    (hadvanced : advanced (seen (n + 1)) prev.1 = true ↔ Advanced (seen n) (seen (n + 1)))
    (hevident : ¬ Evident seen m (n + 1)) :
    Remembers taken seen m (n + 1) e
      (observe (some prev.1) (seen (n + 1)) (taken (n + 1)) cpus) := by
  have hmn : m ≤ n := h.evidence.ge.trans h.evidence.le
  obtain ⟨hstate, hnone⟩ := not_or.mp hevident
  have hstill : advanced (seen (n + 1)) prev.1 = false := by
    rw [← Bool.not_eq_true, hadvanced]
    exact fun hchange => hnone ⟨n, hmn, rfl, hchange⟩
  -- nothing happened, so the last evidence is still the last
  have hevidence : LastEvidence seen m (n + 1) e := h.evidence.succ hevident
  obtain ⟨hactive, hfirst, hactivity, hobserving⟩ :=
    observe_still (taken (n + 1)) cpus hstate hstill
  have hlast : prev.1.lastActive.getD prev.1.firstSeen = taken e := by
    rw [h.lastActive, h.firstSeen]
    by_cases hwhy : whyObserving taken seen m e = some .firstObservation
    · -- only the first snapshot is a first observation
      have hem : e = m := by
        by_contra hne
        unfold whyObserving at hwhy
        rw [if_neg hne] at hwhy
        split_ifs at hwhy
        cases hwhy
      rw [if_pos hwhy, Option.getD_none, hem]
    · rw [if_neg hwhy, Option.getD_some]
  -- an observation under way was started by the last evidence
  have hwatched : ∀ x ∈ prev.1.observing, x.1 = taken e := by
    intro x hx
    rw [h.observing] at hx
    split_ifs at hx
    · cases hx
    · obtain ⟨reason, -, rfl⟩ := Option.mem_map.mp hx
      rfl
  suffices hnow : (observe (some prev.1) (seen (n + 1)) (taken (n + 1)) cpus).1.observing =
        (if DORMANT_AFTER ≤ taken (n + 1) - taken e then none
          else (whyObserving taken seen m e).map fun reason => (taken e, reason)) ∧
      (observe (some prev.1) (seen (n + 1)) (taken (n + 1)) cpus).2.activity =
        activityOfHistory taken seen m (n + 1) e from
    ⟨hevidence, hfirst.trans h.firstSeen, h.firstCpu, hactive.trans h.lastActive, hnow.1, hnow.2⟩
  rw [activityOfHistory, if_neg hstate, hobserving, hactivity]
  by_cases hidle : DORMANT_AFTER ≤ taken (n + 1) - taken e
  · rw [activityOf_idle (hlast ▸ hwatched) (hlast ▸ hidle), hlast, if_pos hidle, if_pos hidle]
    exact ⟨rfl, rfl⟩
  · -- what was known of the observation five seconds ago at most is known still
    have hshort : ¬ DORMANT_AFTER ≤ taken n - taken e := fun hle =>
      hidle (hle.trans (Nat.sub_le_sub_right htaken _))
    have hkept := h.observing
    rw [if_neg hshort] at hkept
    rw [if_neg hidle, if_neg hidle, hkept]
    cases hwhy : whyObserving taken seen m e with
    | some reason =>
      rw [Option.map_some, activityOf_observing (Nat.not_le.mp hidle)]
      exact ⟨rfl, rfl⟩
    | none =>
      have hactive' := h.lastActive
      rw [hwhy, if_neg (by simp)] at hactive'
      rw [Option.map_none, hactive', activityOf_recent (Nat.not_le.mp hidle)]
      exact ⟨rfl, rfl⟩

end History

/-! ### The run of a thread -/

section Run

variable {threads : ℕ → List ProcessThread} {seen : ℕ → ProcessThread} {id : ThreadId} {m n : ℕ}

/-- There is a last snapshot with a sign of running. -/
theorem exists_lastEvidence (seen : ℕ → ProcessThread) (hmn : m ≤ n) :
    ∃ e, LastEvidence seen m n e := by
  induction n, hmn using Nat.le_induction with
  | base => exact ⟨m, lastEvidence_of_evident le_rfl (Or.inl rfl)⟩
  | succ n hmn ih =>
    by_cases hevident : Evident seen m (n + 1)
    · exact ⟨n + 1, lastEvidence_of_evident (Nat.le_succ_of_le hmn) (Or.inr hevident)⟩
    · obtain ⟨e, he⟩ := ih
      exact ⟨e, he.succ hevident⟩

/-- A listed thread has been listed since some snapshot. -/
theorem exists_presence {thread : ProcessThread} (h : thread ∈ threads n) :
    ∃ m seen, Presence threads (idOf thread) seen m n ∧ seen n = thread := by
  induction n generalizing thread with
  | zero =>
    refine ⟨0, fun _ => thread, ⟨le_rfl, fun i _ hi => ?_, fun _ _ _ => rfl, nofun⟩, rfl⟩
    rwa [Nat.le_zero.mp hi]
  | succ n ih =>
    by_cases hbefore : ∃ last ∈ threads n, idOf last = idOf thread
    · obtain ⟨last, hlast, hid⟩ := hbefore
      obtain ⟨m, seen, hrun, -⟩ := ih hlast
      refine ⟨m, Function.update seen (n + 1) thread, ⟨Nat.le_succ_of_le hrun.le, ?_, ?_, ?_⟩,
        Function.update_self ..⟩
      · intro i hmi hi
        rcases Nat.lt_or_eq_of_le hi with hlt | rfl
        · rw [Function.update_of_ne hlt.ne]
          exact hrun.listed i hmi (Nat.le_of_lt_succ hlt)
        · rwa [Function.update_self]
      · intro i hmi hi
        rcases Nat.lt_or_eq_of_le hi with hlt | rfl
        · rw [Function.update_of_ne hlt.ne]
          exact (hrun.same i hmi (Nat.le_of_lt_succ hlt)).trans hid
        · rw [Function.update_self]
      · intro j hj other hother
        rw [← hid]
        exact hrun.begins j hj other hother
    · refine ⟨n + 1, fun _ => thread, ⟨le_rfl, fun i hmi hi => ?_, fun _ _ _ => rfl, ?_⟩, rfl⟩
      · rwa [le_antisymm hi hmi]
      · intro j hj other hother hid
        obtain rfl : j = n := Nat.succ_injective hj
        exact hbefore ⟨other, hother, hid⟩

variable {time : Timing} {cpus : ℕ → ℕ}
  (hdistinct : ∀ n, ((threads n).map ProcessThread.tid).Nodup)

include hdistinct

/-- The first snapshot of a run finds nothing of the thread. -/
theorem entry_first (h : Presence threads id seen m n) :
    entry time threads cpus m (seen m) = observe none (seen m) (time.taken m) (cpus m) := by
  have hnone : (before time threads cpus m).1.previous (seen m) = none := by
    cases m with
    | zero => rfl
    | succ k =>
      refine previous_of_notListed (hdistinct k) fun last hlast => ?_
      rw [h.same (k + 1) le_rfl h.le]
      exact h.begins k rfl last hlast
  rw [entry, hnone]

theorem entry_succ (h : Presence threads id seen m n) {i : ℕ} (hm : m ≤ i) (hi : i < n) :
    entry time threads cpus (i + 1) (seen (i + 1)) =
      observe (some (entry time threads cpus i (seen i)).1) (seen (i + 1)) (time.taken (i + 1))
        (cpus (i + 1)) := by
  have hid : idOf (seen i) = idOf (seen (i + 1)) :=
    (h.same i hm hi.le).trans (h.same (i + 1) (Nat.le_succ_of_le hm) hi).symm
  rw [entry, previous_of_listed (hdistinct i) (h.listed i hm hi.le) hid]

/-- **The entry of a thread remembers its run.** -/
theorem remembers_entry (time : Timing) (cpus : ℕ → ℕ) (h : Presence threads id seen m n) {i : ℕ}
    (hm : m ≤ i) (hi : i ≤ n) :
    ∃ e, Remembers time.taken seen m i e (entry time threads cpus i (seen i)) := by
  induction i, hm using Nat.le_induction with
  | base =>
    rw [entry_first hdistinct h]
    exact ⟨m, remembers_first ..⟩
  | succ i hm ih =>
    obtain ⟨e, he⟩ := ih (Nat.le_of_succ_le hi)
    rw [entry_succ hdistinct h hm hi]
    have hadvanced : advanced (seen (i + 1)) (entry time threads cpus i (seen i)).1 = true ↔
        Advanced (seen i) (seen (i + 1)) := advanced_iff
    by_cases hevident : Evident seen m (i + 1)
    · exact ⟨i + 1, he.active rfl _ hadvanced hevident⟩
    · exact ⟨e, he.still (time.monotone_taken (Nat.le_succ i)) _ hadvanced hevident⟩

/-- The average of a run. -/
theorem avgCpuPct_entry (h : Presence threads id seen m n) :
    (entry time threads cpus n (seen n)).2.avgCpuPct =
      averageOfHistory time.taken seen m n (cpus n) := by
  rcases Nat.lt_or_eq_of_le h.le with hlt | rfl
  · obtain ⟨k, rfl⟩ := Nat.exists_eq_add_one_of_ne_zero (Nat.ne_of_gt (Nat.zero_lt_of_lt hlt))
    have hk : m ≤ k := Nat.le_of_lt_succ hlt
    obtain ⟨e, he⟩ := remembers_entry hdistinct time cpus h hk (Nat.le_succ k)
    rw [entry_succ hdistinct h hk (Nat.lt_succ_self k), averageOfHistory, if_neg hlt.ne,
      ← he.firstSeen, ← he.firstCpu]
    rfl
  · rw [entry_first hdistinct h, averageOfHistory, if_pos rfl]
    rfl

end Run

/-- **The page shows what the history says.**  Every snapshot shows the threads it lists; a listed
thread has a run of snapshots up to this one, and its activity and its average use of the
processors are those of that run. -/
theorem activity_of_history {taken : ℕ → ℕ} (htaken : StrictMono taken)
    {threads : ℕ → List ProcessThread}
    (hdistinct : ∀ n, ((threads n).map ProcessThread.tid).Nodup) (cpus : ℕ → ℕ) (n : ℕ) :
    (rowsAt (.ofStamps taken htaken) threads cpus n).map ThreadRow.thread = threads n ∧
      ∀ row ∈ rowsAt (.ofStamps taken htaken) threads cpus n,
        (∃ m seen e, Presence threads (idOf row.thread) seen m n ∧ LastEvidence seen m n e) ∧
          ∀ m seen e, Presence threads (idOf row.thread) seen m n → LastEvidence seen m n e →
            row.thread = seen n ∧ row.activity = activityOfHistory taken seen m n e ∧
              row.avgCpuPct = averageOfHistory taken seen m n (cpus n) := by
  have hrows : rowsAt (.ofStamps taken htaken) threads cpus n =
      (threads n).map fun thread => (entry (.ofStamps taken htaken) threads cpus n thread).2 :=
    Tracker.apply_rows _ _ _ (hdistinct n)
  refine ⟨?_, fun row hrow => ?_⟩
  · rw [hrows, List.map_map]
    exact List.map_id _
  rw [hrows] at hrow
  obtain ⟨thread, hthread, rfl⟩ := List.mem_map.mp hrow
  change (∃ m seen e, Presence threads (idOf thread) seen m n ∧ _) ∧
    ∀ m seen e, Presence threads (idOf thread) seen m n → _ → thread = seen n ∧ _
  refine ⟨?_, fun m seen e hrun he => ?_⟩
  · obtain ⟨m, seen, hrun, -⟩ := exists_presence hthread
    obtain ⟨e, he⟩ := exists_lastEvidence seen hrun.le
    exact ⟨m, seen, e, hrun, he⟩
  · have hsame : thread = seen n := by
      have htid : thread.tid = (seen n).tid :=
        congrArg ThreadId.tid (hrun.same n hrun.le le_rfl).symm
      exact List.inj_on_of_nodup_map (hdistinct n) hthread (hrun.listed n hrun.le le_rfl) htid
    subst hsame
    obtain ⟨e', he'⟩ := remembers_entry hdistinct (.ofStamps taken htaken) cpus
      hrun hrun.le le_rfl
    refine ⟨rfl, ?_, avgCpuPct_entry hdistinct hrun⟩
    rw [he'.activity, he.unique he'.evidence]
    rfl

/-- A snapshot every two seconds. -/
def everyTwo (n : ℕ) : ℕ := n * 2000000000

theorem strictMono_everyTwo : StrictMono everyTwo :=
  strictMono_nat_of_lt_succ fun n => by
    unfold everyTwo
    omega

theorem not_evident_waiting {m i : ℕ} : ¬ Evident (reading waiting standing) m i := by
  rintro (hstate | ⟨j, -, -, hchange⟩)
  · cases hstate
  · simp [Advanced, reading, standing, cpu100ns] at hchange

/-- A thread that waits since the second snapshot is idle for six seconds three snapshots later. -/
theorem activity_of_history_waiting :
    (rowsAt (.ofStamps everyTwo strictMono_everyTwo) (lone 2 waiting standing)
      (fun _ => 1) 5).map ThreadRow.activity = [.idle 6000000000] := by
  obtain ⟨hthreads, hall⟩ :=
    activity_of_history strictMono_everyTwo (distinct_lone (m := 2)) (fun _ => 1) 5
  obtain ⟨row, hrows, hthread⟩ := List.map_eq_singleton_iff.mp hthreads
  have hrun : Presence (lone 2 waiting standing) (idOf row.thread) (reading waiting standing) 2 5 :=
    ⟨by decide, fun i hm _ => mem_lone.mpr ⟨hm, rfl⟩, fun _ _ _ => by rw [hthread]; rfl,
      fun j hj other hother => absurd (mem_lone.mp hother).1 (by omega)⟩
  have he : LastEvidence (reading waiting standing) 2 5 2 :=
    ⟨le_rfl, by decide, Or.inl rfl, fun _ _ _ => not_evident_waiting⟩
  have hrow := hall row (hrows ▸ List.mem_singleton_self row)
  rw [hrows, List.map_singleton, (hrow.2 2 _ 2 hrun he).2.1]
  rfl

end Threads

end Taskman
