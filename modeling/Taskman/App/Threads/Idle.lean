import Taskman.App.Threads.Tracker
import Mathlib.Order.Monotone.Basic

/-!
# Idle threads were idle

A snapshot is stamped with the instant before its query, and the kernel reads the counters at some
later one.  The tracker dates what it sees by the stamps: a thread that ran while the query was
under way counts as active at the stamp, and its idle time runs from there.

* `Threads.Timing` : when the snapshots are taken and read;
* `Threads.Consistent` : the counters of a thread tell its executions;
* `Threads.Kept` : what the entry of a thread says about its past;
* `Threads.Truthful` : idle threads were idle, and recent ones ran in the last five seconds;
* `Threads.Prompt` : the snapshots are read at once, and follow one another closely;
* `Threads.truthful_iff` : **the page tells the truth about every thread exactly when the snapshots
  are prompt**.
-/

namespace Taskman

namespace Threads

open BrokeredActions

/-! ### Snapshots -/

/-- When the snapshots are taken and read: the stamp precedes the query, and the counters are read
before the next stamp. -/
structure Timing where
  taken : ℕ → ℕ
  read : ℕ → ℕ
  taken_le : ∀ n, taken n ≤ read n
  read_le : ∀ n, read n ≤ taken (n + 1)

theorem Timing.monotone_taken (time : Timing) : Monotone time.taken :=
  monotone_nat_of_le_succ fun n => (time.taken_le n).trans (time.read_le n)

section Run

variable (time : Timing) (threads : ℕ → List ProcessThread) (cpus : ℕ → ℕ)

/-- The tracker before a snapshot, and the rows it shows then. -/
def before : ℕ → Tracker × List ThreadRow
  | 0 => ({}, [])
  | n + 1 => (before n).1.apply (threads n) (time.taken n) (cpus n)

/-- The rows of a snapshot. -/
def rowsAt (n : ℕ) : List ThreadRow := (before time threads cpus (n + 1)).2

/-- What a snapshot says about a thread it lists. -/
def entry (n : ℕ) (thread : ProcessThread) : Track × ThreadRow :=
  observe ((before time threads cpus n).1.previous thread) thread (time.taken n) (cpus n)

end Run

/-- A thread, told from the earlier ones with its id by its creation time. -/
structure ThreadId where
  tid : ℕ
  createdEpochS : Option ℤ
  deriving DecidableEq

/-- What tells a thread from a later one of its id. -/
def idOf (thread : ProcessThread) : ThreadId := ⟨thread.tid, thread.createdEpochS⟩

/-- A counter that is known in both readings changed. -/
def Advanced (last now : ProcessThread) : Prop :=
  now.contextSwitches ≠ last.contextSwitches ∨ cpu100ns now ≠ cpu100ns last ∨
    ∃ a b, last.cycles = some a ∧ now.cycles = some b ∧ b ≠ a

/-- The thread executed after one reading and not after the next. -/
def RanBetween (ran : Set ℕ) (time : Timing) (n : ℕ) : Prop :=
  ∃ t, time.read n < t ∧ t ≤ time.read (n + 1) ∧ t ∈ ran

/-- The snapshots list every thread once, and what they say of one thread fits its executions: where
it is seen running it runs, every execution advances its context switches or its CPU time or is seen
as running, and nothing else advances a counter. -/
structure Consistent (ran : Set ℕ) (id : ThreadId) (time : Timing)
    (threads : ℕ → List ProcessThread) : Prop where
  distinct : ∀ n, ((threads n).map ProcessThread.tid).Nodup
  running : ∀ n, ∀ thread ∈ threads n, idOf thread = id → thread.state = .running →
    time.read n ∈ ran
  shows : ∀ n, ∀ last ∈ threads n, ∀ now ∈ threads (n + 1), idOf last = id → idOf now = id →
    RanBetween ran time n →
      now.contextSwitches ≠ last.contextSwitches ∨ cpu100ns now ≠ cpu100ns last ∨
        now.state = .running
  counts : ∀ n, ∀ last ∈ threads n, ∀ now ∈ threads (n + 1), idOf last = id → idOf now = id →
    Advanced last now → RanBetween ran time n

/-- Up to snapshot `last` the page tells the truth about every thread: an idle one did not execute
after the idle time began, and a recent one executed in the five seconds before the reading, or
since. -/
def Truthful (time : Timing) (last : ℕ) : Prop :=
  ∀ (ran : Set ℕ) (id : ThreadId) (threads : ℕ → List ProcessThread) (cpus : ℕ → ℕ),
    Consistent ran id time threads → ∀ n ≤ last, ∀ row ∈ rowsAt time threads cpus n,
      idOf row.thread = id →
        (∀ idle, row.activity = .idle idle →
          ∀ t, time.taken n - idle < t → t ≤ time.read n → t ∉ ran) ∧
        (row.activity = .recent → ∃ t ∈ ran, time.read n ≤ t + DORMANT_AFTER)

/-- The snapshots up to `last` are read at once, and follow one another closely. -/
structure Prompt (time : Timing) (last : ℕ) : Prop where
  /-- What another snapshot follows after five seconds or more is read when it is taken. -/
  idle : ∀ m n, n ≤ last → time.taken m + DORMANT_AFTER ≤ time.taken n →
    time.read m = time.taken m
  /-- What is taken less than five seconds after a snapshot is read in the five seconds after its
  reading. -/
  running : ∀ m n, n ≤ last → m < n → time.taken n < time.taken m + DORMANT_AFTER →
    time.read n ≤ time.read m + DORMANT_AFTER
  /-- So it is after the reading of the snapshot before that one, where the two are compared. -/
  advanced : ∀ m n, n ≤ last → m < n → time.taken (m + 1) ≤ time.taken m + DORMANT_AFTER →
    time.taken n < time.taken (m + 1) + DORMANT_AFTER → time.read m < time.read (m + 1) →
      time.read n ≤ time.read m + 1 + DORMANT_AFTER

/-! ### What one snapshot does to the entry of a thread -/

section Observe

variable {prev : Track} {thread : ProcessThread} (previous : Option Track) (taken cpus : ℕ)

theorem observe_running (h : thread.state = .running) :
    (observe previous thread taken cpus).1.lastActive = some taken ∧
      (observe previous thread taken cpus).1.observing = none ∧
        (observe previous thread taken cpus).2.activity = .running := by
  simp [observe, activityOf, h]

theorem observe_first (h : thread.state ≠ .running) :
    (observe none thread taken cpus).1.lastActive = none ∧
      (observe none thread taken cpus).1.firstSeen = taken ∧
        (observe none thread taken cpus).1.observing = some (taken, .firstObservation) ∧
          (observe none thread taken cpus).2.activity = .observing 0 .firstObservation := by
  simp [observe, activityOf, compare, h, Activity.isObserving, DORMANT_AFTER]

variable {taken}

theorem observe_afterGap (h : thread.state ≠ .running) (hadvanced : advanced thread prev = true)
    (hgap : DORMANT_AFTER < taken - prev.sampled) :
    (observe (some prev) thread taken cpus).1.lastActive = some taken ∧
      (observe (some prev) thread taken cpus).1.observing = some (taken, .afterGap) ∧
        (observe (some prev) thread taken cpus).2.activity = .observing 0 .afterGap := by
  have hpos : 0 < DORMANT_AFTER := by decide
  simp [observe, activityOf, compare, h, hadvanced, hgap, Activity.isObserving, hpos]

theorem observe_advanced (h : thread.state ≠ .running) (hadvanced : advanced thread prev = true)
    (hgap : ¬ DORMANT_AFTER < taken - prev.sampled) :
    (observe (some prev) thread taken cpus).1.lastActive = some taken ∧
      (observe (some prev) thread taken cpus).1.observing = none ∧
        (observe (some prev) thread taken cpus).2.activity = .recent := by
  have hpos : ¬ DORMANT_AFTER ≤ 0 := by decide
  simp [observe, activityOf, compare, h, hadvanced, hgap, Activity.isObserving, hpos]

/-- A thread whose observation began when its idle time did is idle after five seconds. -/
theorem activityOf_idle {firstSeen : ℕ} {lastActive : Option ℕ}
    {observing : Option (ℕ × ObservingReason)}
    (h : ∀ x ∈ observing, x.1 = lastActive.getD firstSeen)
    (hidle : DORMANT_AFTER ≤ taken - lastActive.getD firstSeen) :
    activityOf false taken firstSeen lastActive observing =
      .idle (taken - lastActive.getD firstSeen) := by
  cases observing with
  | none => simp [activityOf, hidle]
  | some x =>
    obtain ⟨started, reason⟩ := x
    obtain rfl : started = lastActive.getD firstSeen := h _ rfl
    simp [activityOf, hidle, Nat.not_lt.mpr hidle]

theorem activityOf_observing {firstSeen : ℕ} {lastActive : Option ℕ} {x : ℕ × ObservingReason}
    (h : taken - x.1 < DORMANT_AFTER) :
    activityOf false taken firstSeen lastActive (some x) = .observing (taken - x.1) x.2 := by
  simp [activityOf, h]

theorem activityOf_recent {firstSeen last : ℕ} (h : taken - last < DORMANT_AFTER) :
    activityOf false taken firstSeen (some last) none = .recent := by
  simp [activityOf, Nat.not_le.mpr h]

variable (taken) in
theorem observe_still (h : thread.state ≠ .running) (hadvanced : advanced thread prev = false) :
    (observe (some prev) thread taken cpus).1.lastActive = prev.lastActive ∧
      (observe (some prev) thread taken cpus).1.firstSeen = prev.firstSeen ∧
        (observe (some prev) thread taken cpus).2.activity =
            activityOf false taken prev.firstSeen prev.lastActive prev.observing ∧
          (observe (some prev) thread taken cpus).1.observing =
            if (observe (some prev) thread taken cpus).2.activity.isObserving then prev.observing
            else none := by
  simp [observe, compare, h, hadvanced]

end Observe

/-! ### The entry of a thread -/

section Past

variable {ran : Set ℕ} {id : ThreadId} {time : Timing} {threads : ℕ → List ProcessThread}
  {cpus : ℕ → ℕ} {n : ℕ}

/-- Execution was observed by a snapshot: it saw the thread running, or compared it with the one
before, not long ago. -/
def Observed (ran : Set ℕ) (time : Timing) (m : ℕ) : Prop :=
  time.read m ∈ ran ∨
    ∃ j, m = j + 1 ∧ time.taken m ≤ time.taken j + DORMANT_AFTER ∧ RanBetween ran time j

/-- What the entry of a thread says about its past. -/
structure Kept (ran : Set ℕ) (time : Timing) (n : ℕ) (e : Track × ThreadRow) : Prop where
  /-- The observation began when the idle time did. -/
  observing : ∀ x ∈ e.1.observing, x.1 = e.1.since
  /-- Nothing was executed since the reading of the snapshot the idle time is counted from. -/
  quiet : ∃ m ≤ n, e.1.since = time.taken m ∧
    ∀ t, time.read m < t → t ≤ time.read n → t ∉ ran
  /-- What was active recently was observed then. -/
  active : ∀ x ∈ e.1.lastActive, e.1.observing = none →
    x + DORMANT_AFTER ≤ time.taken n ∨ ∃ m ≤ n, x = time.taken m ∧ Observed ran time m
  idle : ∀ d, e.2.activity = .idle d → d = time.taken n - e.1.since ∧ DORMANT_AFTER ≤ d
  recent : e.2.activity = .recent → e.1.observing = none ∧
    ∃ x, e.1.lastActive = some x ∧ time.taken n < x + DORMANT_AFTER

/-- An entry that was active at this snapshot. -/
theorem Kept.of_active {e : Track × ThreadRow} (hactive : e.1.lastActive = some (time.taken n))
    (hobserving : ∀ x ∈ e.1.observing, x.1 = time.taken n)
    (hobserved : e.1.observing = none → Observed ran time n)
    (hidle : ∀ d, e.2.activity ≠ .idle d)
    (hrecent : e.2.activity = .recent → e.1.observing = none) : Kept ran time n e := by
  have hsince : e.1.since = time.taken n := by rw [Track.since, hactive, Option.getD_some]
  refine
    { observing := fun x hx => (hobserving x hx).trans hsince.symm
      quiet := ⟨n, le_rfl, hsince, fun t hlt hle => absurd hle (Nat.not_le.mpr hlt)⟩
      active := fun x hx hnone => Or.inr ⟨n, le_rfl, ?_, hobserved hnone⟩
      idle := fun d hd => absurd hd (hidle d)
      recent := fun hr => ⟨hrecent hr, time.taken n, hactive, by simp [DORMANT_AFTER]⟩ }
  exact Option.some.inj (hx.symm.trans hactive)

/-- A thread that is seen running. -/
theorem kept_running {previous : Option Track} {thread : ProcessThread} {c : ℕ}
    (hstate : thread.state = .running) (hran : time.read n ∈ ran) :
    Kept ran time n (observe previous thread (time.taken n) c) := by
  obtain ⟨hactive, hobserving, hactivity⟩ :=
    observe_running previous (time.taken n) c hstate
  refine Kept.of_active hactive ?_ (fun _ => Or.inl hran) ?_ fun _ => hobserving
  · simp [hobserving]
  · simp [hactivity]

/-- A thread that is seen for the first time. -/
theorem kept_first {thread : ProcessThread} {c : ℕ} (hstate : thread.state ≠ .running) :
    Kept ran time n (observe none thread (time.taken n) c) := by
  obtain ⟨hactive, hfirst, hobserving, hactivity⟩ :=
    observe_first (time.taken n) c hstate
  have hsince : (observe none thread (time.taken n) c).1.since = time.taken n := by
    rw [Track.since, hactive, Option.getD_none, hfirst]
  exact
    { observing := by simp [hobserving, hsince]
      quiet := ⟨n, le_rfl, hsince, fun t hlt hle => absurd hle (Nat.not_le.mpr hlt)⟩
      active := by simp [hactive]
      idle := by simp [hactivity]
      recent := by simp [hactivity] }

/-- A thread whose counters advanced since the last snapshot. -/
theorem kept_advanced {prev : Track} {thread : ProcessThread} {c : ℕ}
    (hstate : thread.state ≠ .running) (hadvanced : advanced thread prev = true)
    (hsampled : prev.sampled = time.taken n) (hran : RanBetween ran time n) :
    Kept ran time (n + 1) (observe (some prev) thread (time.taken (n + 1)) c) := by
  by_cases hgap : DORMANT_AFTER < time.taken (n + 1) - prev.sampled
  · obtain ⟨hactive, hobserving, hactivity⟩ :=
      observe_afterGap c hstate hadvanced hgap
    refine Kept.of_active hactive ?_ ?_ ?_ ?_
    · simp [hobserving]
    · simp [hobserving]
    · simp [hactivity]
    · simp [hactivity]
  · obtain ⟨hactive, hobserving, hactivity⟩ :=
      observe_advanced c hstate hadvanced hgap
    have hclose : time.taken (n + 1) ≤ time.taken n + DORMANT_AFTER := by omega
    refine Kept.of_active hactive ?_ (fun _ => Or.inr ⟨n, rfl, hclose, hran⟩) ?_
      fun _ => hobserving
    · simp [hobserving]
    · simp [hactivity]

/-- A thread that stood still since the last snapshot. -/
theorem kept_still {prev : Track × ThreadRow} {thread : ProcessThread} {c : ℕ}
    (hprev : Kept ran time n prev) (hstate : thread.state ≠ .running)
    (hadvanced : advanced thread prev.1 = false) (hstill : ¬ RanBetween ran time n) :
    Kept ran time (n + 1) (observe (some prev.1) thread (time.taken (n + 1)) c) := by
  obtain ⟨hactive, hfirst, hactivity, hobserving⟩ :=
    observe_still (time.taken (n + 1)) c hstate hadvanced
  generalize observe (some prev.1) thread (time.taken (n + 1)) c = e at *
  have hsince : e.1.since = prev.1.since := by rw [Track.since, Track.since, hactive, hfirst]
  have hmono : time.taken n ≤ time.taken (n + 1) := time.monotone_taken (Nat.le_succ n)
  have hlast : ∀ x, e.1.lastActive = some x → prev.1.since = x := by
    intro x hx
    rw [Track.since, ← hactive, hx, Option.getD_some]
  have hquiet : ∃ m ≤ n + 1, e.1.since = time.taken m ∧
      ∀ t, time.read m < t → t ≤ time.read (n + 1) → t ∉ ran := by
    obtain ⟨m, hm, heq, hnot⟩ := hprev.quiet
    refine ⟨m, hm.trans (Nat.le_succ n), hsince.trans heq, fun t hlt hle hran => ?_⟩
    rcases Nat.lt_or_ge (time.read n) t with hlate | hearly
    · exact hstill ⟨t, hlate, hle, hran⟩
    · exact hnot t hlt hearly hran
  have hpos : 0 < DORMANT_AFTER := by decide
  rcases Nat.lt_or_ge (time.taken (n + 1) - prev.1.since) DORMANT_AFTER with hshort | hidle
  · cases hstarted : prev.1.observing with
    | some x =>
      -- it goes on being observed
      have hx : x.1 = prev.1.since := hprev.observing x hstarted
      rw [hstarted, activityOf_observing (hx ▸ hshort)] at hactivity
      have hsome : e.1.observing = some x := by
        rw [hobserving, hactivity, hstarted]
        exact if_pos rfl
      refine
        { observing := fun y hy => ?_
          quiet := hquiet
          active := by simp [hsome]
          idle := by simp [hactivity]
          recent := by simp [hactivity] }
      obtain rfl : x = y := Option.some.inj (hsome.symm.trans hy)
      exact hx.trans hsince.symm
    | none =>
      have hnone : e.1.observing = none := by
        rw [hobserving, hstarted, ite_self]
      have hold : ∀ x ∈ e.1.lastActive, x + DORMANT_AFTER ≤ time.taken (n + 1) ∨
          ∃ m ≤ n + 1, x = time.taken m ∧ Observed ran time m := by
        intro x hx
        rcases hprev.active x (hactive ▸ hx) hstarted with hold | ⟨m, hm, heq, hobs⟩
        · exact Or.inl (hold.trans hmono)
        · exact Or.inr ⟨m, hm.trans (Nat.le_succ n), heq, hobs⟩
      rw [hstarted, ← hactive] at hactivity
      cases hx : e.1.lastActive with
      | some x =>
        have hshort' : time.taken (n + 1) - x < DORMANT_AFTER := hlast x hx ▸ hshort
        rw [hx, activityOf_recent hshort'] at hactivity
        exact
          { observing := by simp [hnone]
            quiet := hquiet
            active := fun y hy _ => hold y hy
            idle := by simp [hactivity]
            recent := fun _ => ⟨hnone, x, hx, by omega⟩ }
      | none =>
        have hunseen : e.2.activity = .observing 0 .firstObservation := by
          have hshort' : ¬ DORMANT_AFTER ≤ time.taken (n + 1) - prev.1.firstSeen := by
            rw [Nat.not_le, ← hfirst]
            rwa [← hsince, Track.since, hx] at hshort
          simp [hactivity, hx, activityOf, hshort']
        exact
          { observing := by simp [hnone]
            quiet := hquiet
            active := by simp [hx]
            idle := by simp [hunseen]
            recent := by simp [hunseen] }
  · -- it has been watched long enough
    rw [activityOf_idle hprev.observing hidle] at hactivity
    have hnone : e.1.observing = none := by
      rw [hobserving, hactivity]
      exact if_neg Bool.false_ne_true
    refine
      { observing := by simp [hnone]
        quiet := hquiet
        active := fun x hx _ => Or.inl ?_
        idle := fun d hd => ?_
        recent := by simp [hactivity] }
    · have hx' := hlast x hx
      omega
    · rw [hactivity, Activity.idle.injEq] at hd
      rw [hsince]
      exact ⟨hd.symm, hd ▸ hidle⟩

theorem advanced_iff {last now : ProcessThread} {previous : Option Track} {taken c : ℕ} :
    advanced now (observe previous last taken c).1 = true ↔ Advanced last now := by
  rw [advanced, Advanced, Bool.or_eq_true, Bool.or_eq_true, decide_eq_true_eq, decide_eq_true_eq,
    or_assoc]
  refine or_congr_right (or_congr_right ?_)
  simp only [observe]
  cases now.cycles <;> cases last.cycles <;> simp

/-- After a snapshot that lists a thread, what is kept of it is its entry. -/
theorem previous_of_listed (hdistinct : ((threads n).map ProcessThread.tid).Nodup)
    {last now : ProcessThread} (hlast : last ∈ threads n) (hid : idOf last = idOf now) :
    (before time threads cpus (n + 1)).1.previous now =
      some (entry time threads cpus n last).1 := by
  obtain ⟨htid, hcreated⟩ := ThreadId.mk.inj hid
  have htrack := Tracker.apply_tracks (before time threads cpus n).1 (time.taken n) (cpus n)
    hdistinct hlast
  rw [htid] at htrack
  refine (congrArg (Option.filter _) htrack).trans ?_
  exact (Option.filter_some ..).trans (if_pos (decide_eq_true hcreated))

/-- After a snapshot that does not list it nothing is kept of it. -/
theorem previous_of_notListed (hdistinct : ((threads n).map ProcessThread.tid).Nodup)
    {now : ProcessThread} (hnone : ∀ last ∈ threads n, idOf last ≠ idOf now) :
    (before time threads cpus (n + 1)).1.previous now = none := by
  by_cases hlisted : now.tid ∈ (threads n).map ProcessThread.tid
  · obtain ⟨last, hlast, htid⟩ := List.mem_map.mp hlisted
    have htrack := Tracker.apply_tracks (before time threads cpus n).1 (time.taken n) (cpus n)
      hdistinct hlast
    rw [htid] at htrack
    refine (congrArg (Option.filter _) htrack).trans ?_
    refine (Option.filter_some ..).trans (if_neg fun h => hnone last hlast ?_)
    rw [idOf, idOf, htid, ← of_decide_eq_true h]
    rfl
  · have hno := Tracker.apply_tracks_of_notMem (before time threads cpus n).1 (time.taken n)
      (cpus n) hdistinct hlisted
    exact congrArg (Option.filter _) hno

variable (cpus) in
/-- **What the entry of a listed thread says about its past is true.** -/
theorem kept_entry (hc : Consistent ran id time threads) :
    ∀ n, ∀ thread ∈ threads n, idOf thread = id →
      Kept ran time n (entry time threads cpus n thread) := by
  intro n
  induction n with
  | zero =>
    intro thread hthread hid
    by_cases hstate : thread.state = .running
    · exact kept_running hstate (hc.running 0 thread hthread hid hstate)
    · exact kept_first hstate
  | succ n ih =>
    intro now hnow hid
    by_cases hstate : now.state = .running
    · exact kept_running hstate (hc.running (n + 1) now hnow hid hstate)
    by_cases hlisted : ∃ last ∈ threads n, idOf last = id
    · obtain ⟨last, hlast, hid'⟩ := hlisted
      rw [entry, previous_of_listed (hc.distinct n) hlast (hid'.trans hid.symm)]
      cases hadvanced : advanced now (entry time threads cpus n last).1 with
      | true =>
        exact kept_advanced hstate hadvanced rfl
          (hc.counts n last hlast now hnow hid' hid (advanced_iff.mp hadvanced))
      | false =>
        refine kept_still (ih last hlast hid') hstate hadvanced fun hran => ?_
        have hnot : ¬ Advanced last now := fun h => by
          rw [entry, advanced_iff.mpr h] at hadvanced
          cases hadvanced
        rcases hc.shows n last hlast now hnow hid' hid hran with hcs | hcpu | hrunning
        · exact hnot (Or.inl hcs)
        · exact hnot (Or.inr (Or.inl hcpu))
        · exact hstate hrunning
    · rw [entry, previous_of_notListed (hc.distinct n) fun last hlast hid' =>
        hlisted ⟨last, hlast, hid'.trans hid⟩]
      exact kept_first hstate

theorem exists_entry (hc : Consistent ran id time threads) {row : ThreadRow}
    (hrow : row ∈ rowsAt time threads cpus n) :
    row.thread ∈ threads n ∧ row = (entry time threads cpus n row.thread).2 := by
  rw [rowsAt, before, Tracker.apply_rows _ _ _ (hc.distinct n)] at hrow
  obtain ⟨thread, hthread, rfl⟩ := List.mem_map.mp hrow
  exact ⟨hthread, rfl⟩

/-- Where the snapshots are prompt, the page tells the truth. -/
theorem Prompt.truthful {last : ℕ} (hprompt : Prompt time last) : Truthful time last := by
  intro ran id threads cpus hc n hn row hrow hid
  obtain ⟨hthread, hentry⟩ := exists_entry hc hrow
  have hkept := kept_entry cpus hc n row.thread hthread hid
  generalize entry time threads cpus n row.thread = e at hkept hentry
  subst hentry
  constructor
  · intro d hd t hlt hle
    obtain ⟨rfl, hlong⟩ := hkept.idle d hd
    obtain ⟨m, hm, hsince, hquiet⟩ := hkept.quiet
    have hmono : time.taken m ≤ time.taken n := time.monotone_taken hm
    have hread : time.read m = time.taken m := hprompt.idle m n hn (by omega)
    exact hquiet t (by omega) hle
  · intro hr
    obtain ⟨hnone, x, hx, hshort⟩ := hkept.recent hr
    rcases hkept.active x hx hnone with hold | ⟨m, hm, rfl, hobserved⟩
    · omega
    rcases hobserved with hran | ⟨j, rfl, hclose, t, hlt, hle, hran⟩
    · refine ⟨time.read m, hran, ?_⟩
      rcases Nat.lt_or_eq_of_le hm with hlt | rfl
      · exact hprompt.running m n hn hlt hshort
      · exact Nat.le_add_right _ _
    · refine ⟨t, hran, ?_⟩
      have hread := hprompt.advanced j n hn hm hclose hshort (hlt.trans_le hle)
      omega

end Past

/-! ### Histories of one thread -/

section Lone

variable (m : ℕ) (state : ℕ → ThreadState) (switches : ℕ → ℕ)

/-- What the snapshots read of the thread. -/
def reading (n : ℕ) : ProcessThread :=
  { tid := 1, startAddress := none, priority := 8, basePriority := 8,
    contextSwitches := switches n, kernelTime100ns := 0, userTime100ns := 0,
    createdEpochS := none, state := state n, waitReason := 0, cycles := none }

/-- Snapshots of a process with one thread, which starts before snapshot `m`. -/
def lone (n : ℕ) : List ProcessThread :=
  if n < m then [] else [reading state switches n]

/-- The identity of a thread whose creation is unknown. -/
def loneId : ThreadId := ⟨1, none⟩

variable {m state switches} {ran : Set ℕ} {time : Timing} {n : ℕ}

theorem mem_lone {thread : ProcessThread} :
    thread ∈ lone m state switches n ↔ m ≤ n ∧ thread = reading state switches n := by
  by_cases h : n < m
  · simp [lone, h, Nat.not_le.mpr h]
  · simp [lone, h, Nat.not_lt.mp h]

theorem distinct_lone (n : ℕ) : ((lone m state switches n).map ProcessThread.tid).Nodup := by
  by_cases h : n < m
  · simp [lone, h]
  · simp [lone, h]

theorem consistent_lone
    (hrunning : ∀ n, m ≤ n → state n = .running → time.read n ∈ ran)
    (hshows : ∀ n, m ≤ n → RanBetween ran time n →
      switches (n + 1) ≠ switches n ∨ state (n + 1) = .running)
    (hcounts : ∀ n, m ≤ n → switches (n + 1) ≠ switches n → RanBetween ran time n) :
    Consistent ran loneId time (lone m state switches) where
  distinct := distinct_lone
  running := by
    intro n thread hthread _ hstate
    obtain ⟨hm, rfl⟩ := mem_lone.mp hthread
    exact hrunning n hm hstate
  shows := by
    intro n last hlast now hnow _ _ hran
    obtain ⟨hm, rfl⟩ := mem_lone.mp hlast
    obtain ⟨-, rfl⟩ := mem_lone.mp hnow
    exact (hshows n hm hran).imp_right Or.inr
  counts := by
    intro n last hlast now hnow _ _ hadvanced
    obtain ⟨hm, rfl⟩ := mem_lone.mp hlast
    obtain ⟨-, rfl⟩ := mem_lone.mp hnow
    refine hcounts n hm ?_
    simpa [Advanced, reading, cpu100ns] using hadvanced

/-- Its entry, where the thread is listed. -/
abbrev loneEntry (time : Timing) (cpus : ℕ → ℕ) (m : ℕ) (state : ℕ → ThreadState)
    (switches : ℕ → ℕ) (n : ℕ) : Track × ThreadRow :=
  entry time (lone m state switches) cpus n (reading state switches n)

variable (time) (cpus : ℕ → ℕ)

theorem loneEntry_mem (hm : m ≤ n) :
    (loneEntry time cpus m state switches n).2 ∈ rowsAt time (lone m state switches) cpus n := by
  rw [rowsAt, before, Tracker.apply_rows _ _ _ (distinct_lone n)]
  exact List.mem_map_of_mem (mem_lone.mpr ⟨hm, rfl⟩)

theorem loneEntry_first : loneEntry time cpus m state switches m =
    observe none (reading state switches m) (time.taken m) (cpus m) := by
  have hnone : (before time (lone m state switches) cpus m).1.previous
      (reading state switches m) = none := by
    cases m with
    | zero => rfl
    | succ k =>
      refine previous_of_notListed (distinct_lone k) fun last hlast => ?_
      exact absurd (mem_lone.mp hlast).1 (Nat.not_succ_le_self k)
  rw [loneEntry, entry, hnone]

theorem loneEntry_succ (hm : m ≤ n) : loneEntry time cpus m state switches (n + 1) =
    observe (some (loneEntry time cpus m state switches n).1) (reading state switches (n + 1))
      (time.taken (n + 1)) (cpus (n + 1)) := by
  have hlast : reading state switches n ∈ lone m state switches n := mem_lone.mpr ⟨hm, rfl⟩
  have hid : idOf (reading state switches n) = idOf (reading state switches (n + 1)) := rfl
  rw [loneEntry, entry, previous_of_listed (distinct_lone n) hlast hid]

theorem advanced_lone (hsame : switches (n + 1) = switches n) :
    advanced (reading state switches (n + 1)) (loneEntry time cpus m state switches n).1 =
      false := by
  rw [Bool.eq_false_iff, ne_eq, loneEntry, entry, advanced_iff]
  simp [Advanced, reading, cpu100ns, hsame]

/-- What is kept while it stands still. -/
theorem loneEntry_still {a : ℕ} (ha : m ≤ a) (hstate : ∀ i, a ≤ i → state (i + 1) ≠ .running)
    (hsame : ∀ i, a ≤ i → switches (i + 1) = switches i) (hn : a ≤ n) :
    (loneEntry time cpus m state switches n).1.lastActive =
        (loneEntry time cpus m state switches a).1.lastActive ∧
      (loneEntry time cpus m state switches n).1.firstSeen =
          (loneEntry time cpus m state switches a).1.firstSeen ∧
        ((loneEntry time cpus m state switches a).1.observing = none →
          (loneEntry time cpus m state switches n).1.observing = none) := by
  induction n, hn using Nat.le_induction with
  | base => exact ⟨rfl, rfl, id⟩
  | succ i hi ih =>
    have hrunning : (reading state switches (i + 1)).state ≠ .running := hstate i hi
    obtain ⟨hactive, hfirst, -, hobserving⟩ := observe_still (time.taken (i + 1)) (cpus (i + 1))
      hrunning (advanced_lone time cpus (hsame i hi))
    rw [loneEntry_succ time cpus (ha.trans hi), hactive, hfirst, hobserving]
    refine ⟨ih.1, ih.2.1, fun hnone => ?_⟩
    rw [ih.2.2 hnone, ite_self]

/-- The activity after it stood still. -/
theorem activity_still {a : ℕ} (ha : m ≤ a) (hstate : ∀ i, a ≤ i → state (i + 1) ≠ .running)
    (hsame : ∀ i, a ≤ i → switches (i + 1) = switches i) (hn : a ≤ n) :
    (loneEntry time cpus m state switches (n + 1)).2.activity =
      activityOf false (time.taken (n + 1)) (loneEntry time cpus m state switches a).1.firstSeen
        (loneEntry time cpus m state switches a).1.lastActive
        (loneEntry time cpus m state switches n).1.observing := by
  obtain ⟨hactive, hfirst, -⟩ :=
    loneEntry_still time cpus ha hstate hsame hn
  rw [loneEntry_succ time cpus (ha.trans hn), ← hactive, ← hfirst]
  exact (observe_still _ _ (hstate n hn) (advanced_lone time cpus (hsame n hn))).2.2.1

end Lone

/-! ### The page tells the truth -/

section Truth

variable {time : Timing} {last m n : ℕ}

theorem Timing.monotone_read (time : Timing) : Monotone time.read :=
  monotone_nat_of_le_succ fun n => (time.read_le n).trans (time.taken_le (n + 1))

theorem not_ranBetween_singleton {t : ℕ} (ht : t ≤ time.read m) (hn : m ≤ n) :
    ¬ RanBetween {t} time n := by
  rintro ⟨_, hlt, -, rfl⟩
  exact absurd (ht.trans (time.monotone_read hn)) (Nat.not_le.mpr hlt)

/-- What the page says about the thread of a history. -/
theorem Truthful.tells {ran : Set ℕ} {state : ℕ → ThreadState} {switches : ℕ → ℕ}
    (h : Truthful time last) (hc : Consistent ran loneId time (lone m state switches)) (hm : m ≤ n)
    (hn : n ≤ last) :
    (∀ idle, (loneEntry time (fun _ => 1) m state switches n).2.activity = .idle idle →
        ∀ t, time.taken n - idle < t → t ≤ time.read n → t ∉ ran) ∧
      ((loneEntry time (fun _ => 1) m state switches n).2.activity = .recent →
        ∃ t ∈ ran, time.read n ≤ t + DORMANT_AFTER) :=
  h ran loneId _ _ hc n hn _ (loneEntry_mem time _ hm) rfl

/-- A thread that waits. -/
def waiting (_ : ℕ) : ThreadState := .waiting

/-- A thread that one snapshot sees running. -/
def runningAt (m n : ℕ) : ThreadState := if n = m then .running else .waiting

/-- A clock that stands still. -/
def standing (_ : ℕ) : ℕ := 0

/-- A context switch after one snapshot. -/
def switchedAfter (m n : ℕ) : ℕ := if n = m then 0 else 1

theorem runningAt_ne {i : ℕ} (hi : m ≤ i) : runningAt m (i + 1) ≠ .running := by
  simp [runningAt, Nat.ne_of_gt (Nat.lt_succ_of_le hi)]

theorem switchedAfter_succ {i : ℕ} (hi : m + 1 ≤ i) :
    switchedAfter m (i + 1) = switchedAfter m i := by
  rw [switchedAfter, switchedAfter, if_neg (by omega), if_neg (by omega)]

/-- A thread that waits from its first snapshot on may have run while that one was under way: it is
called idle only where that was read when it was taken. -/
theorem Truthful.read_eq (h : Truthful time last) (hn : n ≤ last)
    (hlong : time.taken m + DORMANT_AFTER ≤ time.taken n) : time.read m = time.taken m := by
  have hpos : 0 < DORMANT_AFTER := by decide
  have hmn : m < n := by
    by_contra hle
    have hmono : time.taken n ≤ time.taken m := time.monotone_taken (Nat.not_lt.mp hle)
    omega
  obtain ⟨k, rfl⟩ := Nat.exists_eq_add_one_of_ne_zero (Nat.ne_of_gt (Nat.zero_lt_of_lt hmn))
  have hk : m ≤ k := Nat.le_of_lt_succ hmn
  have hwaits : ∀ i, m ≤ i → waiting (i + 1) ≠ .running := fun _ _ => nofun
  have hsame : ∀ i, m ≤ i → standing (i + 1) = standing i := fun _ _ => rfl
  have hc : Consistent {time.read m} loneId time (lone m waiting standing) :=
    consistent_lone (fun _ _ h => nomatch h)
      (fun i hi hran => absurd hran (not_ranBetween_singleton le_rfl hi))
      fun i hi hne => absurd (hsame i hi) hne
  have hfirst : (loneEntry time (fun _ => 1) m waiting standing m).1.lastActive = none ∧
      (loneEntry time (fun _ => 1) m waiting standing m).1.firstSeen = time.taken m := by
    have hstate : (reading waiting standing m).state ≠ .running := nofun
    rw [loneEntry_first]
    exact ⟨(observe_first _ _ hstate).1, (observe_first _ _ hstate).2.1⟩
  have hactivity := activity_still time (fun _ => 1) le_rfl hwaits hsame hk
  rw [hfirst.1, hfirst.2, activityOf_idle] at hactivity
  · have hquiet := (h.tells hc (Nat.le_succ_of_le hk) hn).1 _ hactivity (time.read m)
    have hle := time.taken_le m
    have hread : time.read m ≤ time.read (k + 1) := time.monotone_read hmn.le
    by_contra hne
    refine hquiet ?_ hread rfl
    change time.taken (k + 1) - (time.taken (k + 1) - time.taken m) < time.read m
    omega
  · have hstill := loneEntry_still time (fun _ => 1) le_rfl hwaits hsame hk
    have hkept := kept_entry (fun _ => 1) hc k _ (mem_lone.mpr ⟨hk, rfl⟩) rfl
    intro x hx
    rw [hkept.observing x hx, Track.since, hstill.1, hstill.2.1, hfirst.1, hfirst.2]
  · rw [Option.getD_none]
    omega

/-- A thread that is seen running once is called recent for five seconds after that stamp. -/
theorem Truthful.running (h : Truthful time last) (hn : n ≤ last) (hmn : m < n)
    (hshort : time.taken n < time.taken m + DORMANT_AFTER) :
    time.read n ≤ time.read m + DORMANT_AFTER := by
  have hpos : 0 < DORMANT_AFTER := by decide
  obtain ⟨k, rfl⟩ := Nat.exists_eq_add_one_of_ne_zero (Nat.ne_of_gt (Nat.zero_lt_of_lt hmn))
  have hk : m ≤ k := Nat.le_of_lt_succ hmn
  have hwaits : ∀ i, m ≤ i → runningAt m (i + 1) ≠ .running := fun _ hi => runningAt_ne hi
  have hsame : ∀ i, m ≤ i → standing (i + 1) = standing i := fun _ _ => rfl
  have hc : Consistent {time.read m} loneId time (lone m (runningAt m) standing) := by
    refine consistent_lone (fun i _ hstate => ?_)
      (fun i hi hran => absurd hran (not_ranBetween_singleton le_rfl hi))
      fun i hi hne => absurd (hsame i hi) hne
    by_cases him : i = m
    · rw [him]
      rfl
    · rw [runningAt, if_neg him] at hstate
      cases hstate
  have hentry : (loneEntry time (fun _ => 1) m (runningAt m) standing m).1.lastActive =
        some (time.taken m) ∧
      (loneEntry time (fun _ => 1) m (runningAt m) standing m).1.observing = none := by
    have hstate : (reading (runningAt m) standing m).state = .running := if_pos rfl
    rw [loneEntry_first]
    exact ⟨(observe_running _ _ _ hstate).1, (observe_running _ _ _ hstate).2.1⟩
  have hactivity := activity_still time (fun _ => 1) le_rfl hwaits hsame hk
  have hstill := loneEntry_still time (fun _ => 1) le_rfl hwaits hsame hk
  rw [hentry.1, hstill.2.2 hentry.2, activityOf_recent (by omega)] at hactivity
  obtain ⟨t, rfl, ht⟩ := (h.tells hc (Nat.le_succ_of_le hk) hn).2 hactivity
  exact ht

/-- A thread that runs right after a reading is called recent for five seconds after the next
stamp. -/
theorem Truthful.advanced (h : Truthful time last) (hn : n ≤ last) (hmn : m < n)
    (hclose : time.taken (m + 1) ≤ time.taken m + DORMANT_AFTER)
    (hshort : time.taken n < time.taken (m + 1) + DORMANT_AFTER)
    (hread : time.read m < time.read (m + 1)) :
    time.read n ≤ time.read m + 1 + DORMANT_AFTER := by
  have hpos : 0 < DORMANT_AFTER := by decide
  have hwaits : ∀ i, m + 1 ≤ i → waiting (i + 1) ≠ .running := fun _ _ => nofun
  have hsame : ∀ i, m + 1 ≤ i → switchedAfter m (i + 1) = switchedAfter m i :=
    fun _ hi => switchedAfter_succ hi
  have hstep : switchedAfter m (m + 1) ≠ switchedAfter m m := by simp [switchedAfter]
  have hran : RanBetween {time.read m + 1} time m := ⟨_, Nat.lt_succ_self _, hread, rfl⟩
  have hc : Consistent {time.read m + 1} loneId time (lone m waiting (switchedAfter m)) := by
    refine consistent_lone (fun _ _ h => nomatch h) (fun i hi hran' => ?_) fun i hi hne => ?_
    · rcases Nat.lt_or_eq_of_le hi with hlt | rfl
      · exact absurd hran' (not_ranBetween_singleton hread hlt)
      · exact Or.inl hstep
    · rcases Nat.lt_or_eq_of_le hi with hlt | rfl
      · exact absurd (hsame i hlt) hne
      · exact hran
  have hentry : (loneEntry time (fun _ => 1) m waiting (switchedAfter m) (m + 1)).1.lastActive =
        some (time.taken (m + 1)) ∧
      (loneEntry time (fun _ => 1) m waiting (switchedAfter m) (m + 1)).1.observing = none ∧
        (loneEntry time (fun _ => 1) m waiting (switchedAfter m) (m + 1)).2.activity =
          .recent := by
    rw [loneEntry_succ _ _ le_rfl]
    refine observe_advanced _ nofun ?_ (Nat.not_lt.mpr (Nat.sub_le_iff_le_add'.mpr hclose))
    rw [loneEntry, entry, advanced_iff]
    exact Or.inl hstep
  have hactivity : (loneEntry time (fun _ => 1) m waiting (switchedAfter m) n).2.activity =
      .recent := by
    rcases Nat.lt_or_eq_of_le (Nat.succ_le_of_lt hmn) with hlt | rfl
    · obtain ⟨k, rfl⟩ := Nat.exists_eq_add_one_of_ne_zero (Nat.ne_of_gt (Nat.zero_lt_of_lt hlt))
      have hk : m + 1 ≤ k := Nat.le_of_lt_succ hlt
      rw [activity_still time _ (Nat.le_succ m) hwaits hsame hk, hentry.1,
        (loneEntry_still time _ (Nat.le_succ m) hwaits hsame hk).2.2 hentry.2.1,
        activityOf_recent (by omega)]
    · exact hentry.2.2
  obtain ⟨t, rfl, ht⟩ := (h.tells hc hmn.le hn).2 hactivity
  exact ht

/-- **The page tells the truth about every thread exactly when the snapshots are prompt.** -/
theorem truthful_iff (time : Timing) (last : ℕ) : Truthful time last ↔ Prompt time last :=
  ⟨fun h =>
    { idle := fun _ _ hn => h.read_eq hn
      running := fun _ _ hn => h.running hn
      advanced := fun _ _ hn => h.advanced hn }, Prompt.truthful⟩

/-- Snapshots every five seconds whose queries take three. -/
def slow : Timing where
  taken n := n * 5000000000
  read n := n * 5000000000 + 3000000000
  taken_le n := by omega
  read_le n := by omega

/-- A thread that ran two seconds ago is called idle for five. -/
theorem idle_after_two_seconds : ¬ ∀ (time : Timing) (last : ℕ), Truthful time last := by
  intro h
  have hread : slow.read 0 = slow.taken 0 := (h slow 1).read_eq (le_refl 1) (by decide)
  revert hread
  decide

end Truth

end Threads

end Taskman
