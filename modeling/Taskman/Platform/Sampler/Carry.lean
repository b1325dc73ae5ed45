import Taskman.Platform.Sampler.Disk

/-!
# How old a carried disk reading may be

Shares are carried over windows too short to measure.  They are thrown away while nobody wants the
column, but neither when a tick has no answer nor when a window could not be decoded: a short window
afterwards shows them again.

* `DiskTrace` : the column, with when each kept reading was measured;
* `DiskTrace.CarriesFresh` : what is carried was measured by the last window of at least 100 ms,
  and every answer since was known;
* `DiskTrace.GapFree` : the ticks at which the code keeps to that;
* `carried_fresh_iff` : **a run carries fresh readings only, exactly when each tick is gap-free.**
-/

namespace Taskman.Sampler

open Etw.Disk (DiskWindow)

/-- The column together with when things happened. -/
structure DiskTrace where
  state : DiskState := {}
  /-- The number of this tick. -/
  now : ℕ := 0
  /-- The tick at which the reading kept for a pid was measured. -/
  measuredAt : ℕ → Option ℕ := fun _ => none
  /-- The most recent window of at least 100 ms. -/
  longAt : Option ℕ := none
  /-- The most recent unknown answer: no window, or one that could not be decoded. -/
  unknownAt : Option ℕ := none
  /-- The last window of at least 100 ms could be decoded while a disk had an active time, and every
  answer since was known. -/
  settled : Bool := false

/-- The window of a tick. -/
def DiskTrace.answer (d : DiskTrace) (t : DiskTick) : Option DiskWindow :=
  (d.state.evict t.evicted).answer t.outside

/-- The readings that a tick may carry. -/
def DiskTrace.kept (d : DiskTrace) (t : DiskTick) : ℕ → Option ProcDiskSample :=
  (d.state.evict t.evicted).kept t.outside

/-- Whether a tick measures the process with a pid. -/
def DiskTick.measures (t : DiskTick) (answer : Option DiskWindow) (pid : ℕ) : Bool :=
  answer.any fun window => decide (MIN_WINDOW_MS ≤ window.sinceMs) && window.decoded &&
    t.processes.any fun process =>
      decide (process.pid = pid) && (measureRow window t.active process).2.isSome

/-- A tick, and the times it leaves. -/
def DiskTrace.tick (d : DiskTrace) (t : DiskTick) : DiskTrace :=
  let answer := d.answer t
  { state := (diskTick d.state t).1
    now := d.now + 1
    measuredAt := fun pid => if t.measures answer pid then some d.now else d.measuredAt pid
    longAt :=
      if answer.any fun w => decide (MIN_WINDOW_MS ≤ w.sinceMs) then some d.now else d.longAt
    unknownAt := if answer.any DiskWindow.decoded then d.unknownAt else some d.now
    settled := answer.any fun w =>
      w.decoded && if w.sinceMs < MIN_WINDOW_MS then d.settled else !t.active.isEmpty }

/-- A tick as a step of a run. -/
def DiskTrace.step (d : DiskTrace) (t : DiskTick) : Option DiskTrace := some (d.tick t)

/-- A row of the tick is filled from the reading kept for it. -/
def DiskTrace.Carries (d : DiskTrace) (t : DiskTick) (process : ProcessEntry) : Prop :=
  process ∈ t.processes ∧ process.synthetic = false ∧
    (∃ window, d.answer t = some window ∧ window.sinceMs < MIN_WINDOW_MS) ∧
    ∃ sample, d.kept t process.pid = some sample ∧ sample.startEpochS = process.startEpochS

/-- **What is carried is fresh**: measured by the most recent window of at least 100 ms, with no
unknown answer since. -/
def DiskTrace.CarriesFresh (d : DiskTrace) (t : DiskTick) : Prop :=
  ∀ process, d.Carries t process → ∃ m, d.measuredAt process.pid = some m ∧ d.longAt = some m ∧
    ∀ u, d.unknownAt = some u → u < m

/-- A short window comes after a settled answer, or finds nothing to carry. -/
def DiskTrace.GapFree (d : DiskTrace) (t : DiskTick) : Prop :=
  (∃ window, d.answer t = some window ∧ window.sinceMs < MIN_WINDOW_MS) →
    d.settled = true ∨ ∀ process ∈ t.processes, process.synthetic = false →
      ∀ sample, d.kept t process.pid = some sample → sample.startEpochS ≠ process.startEpochS

/-! ### What the trace knows about the readings -/

/-- What is kept was measured, and is fresh exactly when the answers have settled since. -/
structure DiskTrace.Dated (d : DiskTrace) : Prop where
  past : ∀ pid m, d.measuredAt pid = some m → m < d.now
  unknownPast : ∀ u, d.unknownAt = some u → u < d.now
  measured : ∀ pid, d.state.lastProcDisk pid ≠ none → d.measuredAt pid ≠ none
  fresh : d.settled = true → ∃ m, d.longAt = some m ∧ (∀ u, d.unknownAt = some u → u < m) ∧
    ∀ pid, d.state.lastProcDisk pid ≠ none → d.measuredAt pid = some m
  settled : ∀ pid m, d.measuredAt pid = some m → d.longAt = some m →
    (∀ u, d.unknownAt = some u → u < m) → d.settled = true

/-- What a tick may carry was kept before it. -/
theorem DiskTrace.ne_none_of_kept {d : DiskTrace} {t : DiskTick} {pid : ℕ}
    {sample : ProcDiskSample} (h : d.kept t pid = some sample) :
    d.state.lastProcDisk pid = some sample := by
  unfold DiskTrace.kept DiskState.kept DiskState.evict at h
  split at h
  · dsimp only at h
    split at h
    · cases h
    · exact h
  · cases h

/-- At a dated trace, what is carried is fresh exactly when the tick is gap-free. -/
theorem DiskTrace.Dated.carriesFresh_iff {d : DiskTrace} (hd : d.Dated) (t : DiskTick) :
    d.CarriesFresh t ↔ d.GapFree t := by
  constructor
  · intro hfresh hshort
    by_cases hnothing : ∀ process ∈ t.processes, process.synthetic = false →
        ∀ sample, d.kept t process.pid = some sample → sample.startEpochS ≠ process.startEpochS
    · exact Or.inr hnothing
    · push Not at hnothing
      obtain ⟨process, hprocess, hreal, sample, hsample, hstart⟩ := hnothing
      obtain ⟨m, hmeasured, hlong, hunknown⟩ :=
        hfresh process ⟨hprocess, hreal, hshort, sample, hsample, hstart⟩
      exact Or.inl (hd.settled process.pid m hmeasured hlong hunknown)
  · rintro hgap process ⟨hprocess, hreal, hshort, sample, hsample, hstart⟩
    rcases hgap hshort with hsettled | hnothing
    · obtain ⟨m, hlong, hunknown, hall⟩ := hd.fresh hsettled
      refine ⟨m, hall process.pid ?_, hlong, hunknown⟩
      rw [DiskTrace.ne_none_of_kept hsample]
      exact Option.some_ne_none sample
    · exact absurd hstart (hnothing process hprocess hreal sample hsample)

/-- Only a window that is long enough and could be decoded measures. -/
theorem DiskTick.measures_eq_false {t : DiskTick} {answer : Option DiskWindow}
    (h : ∀ window, answer = some window → MIN_WINDOW_MS ≤ window.sinceMs → window.decoded = false)
    (pid : ℕ) : t.measures answer pid = false := by
  cases answer with
  | none => rfl
  | some window =>
    rw [DiskTick.measures, Option.any_some]
    by_cases hlong : MIN_WINDOW_MS ≤ window.sinceMs
    · simp [h window rfl hlong]
    · simp [hlong]

/-- A tick that keeps what was kept and measures nothing: what is known depends on the answer. -/
theorem DiskTrace.Dated.of_unmeasured {d d' : DiskTrace} (hd : d.Dated) (hnow : d'.now = d.now + 1)
    (hkept : ∀ pid, d'.state.lastProcDisk pid ≠ none → d.state.lastProcDisk pid ≠ none)
    (hmeasured : d'.measuredAt = d.measuredAt)
    (hanswer : (d'.settled = false ∧ (d'.longAt = some d.now ∨ d'.unknownAt = some d.now) ∧
        (d'.unknownAt = some d.now ∨ d'.unknownAt = d.unknownAt)) ∨
      d'.settled = d.settled ∧ d'.longAt = d.longAt ∧ d'.unknownAt = d.unknownAt) : d'.Dated := by
  have hpast : ∀ pid m, d'.measuredAt pid = some m → m < d.now := by
    intro pid m hm
    rw [hmeasured] at hm
    exact hd.past pid m hm
  have hunknownPast : ∀ u, d'.unknownAt = some u → u < d'.now := by
    intro u hu
    have hcase : d'.unknownAt = some d.now ∨ d'.unknownAt = d.unknownAt := by
      rcases hanswer with ⟨-, -, hcase⟩ | ⟨-, -, hsame⟩
      · exact hcase
      · exact Or.inr hsame
    rcases hcase with hnew | hsame
    · obtain rfl := Option.some.inj (hnew.symm.trans hu)
      omega
    · rw [hsame] at hu
      have hbefore := hd.unknownPast u hu
      omega
  have hkeeps : ∀ pid, d'.state.lastProcDisk pid ≠ none → d'.measuredAt pid ≠ none := by
    intro pid hpid
    rw [hmeasured]
    exact hd.measured pid (hkept pid hpid)
  refine ⟨fun pid m hm => ?_, hunknownPast, hkeeps, ?_, ?_⟩
  · have hbefore := hpast pid m hm
    omega
  · intro hsettled
    rcases hanswer with ⟨hunsettled, -⟩ | ⟨hsame, hlong, hunknown⟩
    · rw [hunsettled] at hsettled
      cases hsettled
    · obtain ⟨m, hm, hu, hall⟩ := hd.fresh (hsame ▸ hsettled)
      rw [hlong, hunknown, hmeasured]
      exact ⟨m, hm, hu, fun pid hpid => hall pid (hkept pid hpid)⟩
  · intro pid m hm hlong hu
    rcases hanswer with ⟨-, hlate, -⟩ | ⟨hsame, hlong', hunknown⟩
    · -- the latest window or unknown answer is of this tick, so nothing older is fresh
      have hbefore := hpast pid m hm
      rcases hlate with hnew | hnew
      · obtain rfl := Option.some.inj (hnew.symm.trans hlong)
        omega
      · have hafter := hu _ hnew
        omega
    · rw [hsame]
      rw [hmeasured] at hm
      exact hd.settled pid m hm (hlong' ▸ hlong) fun u hu' => hu u (hunknown ▸ hu')

section Tick

variable {d : DiskTrace} {t : DiskTick} {window : DiskWindow}

theorem DiskTrace.kept_of_carried (hstate : (d.tick t).state.lastProcDisk = d.kept t) (pid : ℕ)
    (h : (d.tick t).state.lastProcDisk pid ≠ none) : d.state.lastProcDisk pid ≠ none := by
  rw [hstate] at h
  obtain ⟨sample, hsample⟩ := Option.ne_none_iff_exists'.mp h
  rw [DiskTrace.ne_none_of_kept hsample]
  exact Option.some_ne_none sample

theorem DiskTrace.measuredAt_of_not (h : ∀ pid, t.measures (d.answer t) pid = false) :
    (d.tick t).measuredAt = d.measuredAt := by
  funext pid
  simp only [DiskTrace.tick, h pid, Bool.false_eq_true, if_false]

theorem DiskTrace.Dated.unanswered (hd : d.Dated) (hanswer : d.answer t = none)
    (hstate : (d.tick t).state.lastProcDisk = d.kept t) : (d.tick t).Dated := by
  have hnot : ∀ pid, t.measures (d.answer t) pid = false :=
    DiskTick.measures_eq_false fun window hwindow => by
      rw [hanswer] at hwindow
      cases hwindow
  refine hd.of_unmeasured rfl (DiskTrace.kept_of_carried hstate)
    (DiskTrace.measuredAt_of_not hnot) (Or.inl ⟨?_, Or.inr ?_, Or.inl ?_⟩)
  all_goals simp [DiskTrace.tick, hanswer]

theorem DiskTrace.Dated.short (hd : d.Dated) (hanswer : d.answer t = some window)
    (hshort : window.sinceMs < MIN_WINDOW_MS)
    (hstate : (d.tick t).state.lastProcDisk = d.kept t) : (d.tick t).Dated := by
  have hnot : ∀ pid, t.measures (d.answer t) pid = false := by
    refine DiskTick.measures_eq_false fun window' hwindow' hlong => ?_
    obtain rfl := Option.some.inj (hanswer.symm.trans hwindow')
    omega
  have hnotLong : ¬ MIN_WINDOW_MS ≤ window.sinceMs := Nat.not_le_of_lt hshort
  refine hd.of_unmeasured rfl (DiskTrace.kept_of_carried hstate)
    (DiskTrace.measuredAt_of_not hnot) ?_
  cases hdecoded : window.decoded with
  | false =>
    refine Or.inl ⟨?_, Or.inr ?_, Or.inl ?_⟩
    all_goals simp [DiskTrace.tick, hanswer, hdecoded]
  | true =>
    refine Or.inr ⟨?_, ?_, ?_⟩
    all_goals simp [DiskTrace.tick, hanswer, hdecoded, hshort, hnotLong]

theorem DiskTrace.Dated.undecoded (hd : d.Dated) (hanswer : d.answer t = some window)
    (hdecoded : window.decoded = false)
    (hstate : (d.tick t).state.lastProcDisk = d.kept t) : (d.tick t).Dated := by
  have hnot : ∀ pid, t.measures (d.answer t) pid = false := by
    refine DiskTick.measures_eq_false fun window' hwindow' _ => ?_
    obtain rfl := Option.some.inj (hanswer.symm.trans hwindow')
    exact hdecoded
  refine hd.of_unmeasured rfl (DiskTrace.kept_of_carried hstate)
    (DiskTrace.measuredAt_of_not hnot) (Or.inl ⟨?_, Or.inr ?_, Or.inl ?_⟩)
  all_goals simp [DiskTrace.tick, hanswer, hdecoded]

section Measured

variable (ht : ∀ process ∈ t.processes, Enumerated process)
  (hanswer : d.answer t = some window) (hlong : MIN_WINDOW_MS ≤ window.sinceMs)
  (hdecoded : window.decoded = true)
  (hstate : (d.tick t).state.lastProcDisk = keepMeasured (d.kept t)
    (t.processes.map (measureRow window t.active)) (t.processes.map ProcessEntry.pid))

include ht hanswer hlong hdecoded hstate

/-- Without an active time of any disk nothing is measured. -/
theorem DiskTrace.Dated.inactive (hd : d.Dated) (hempty : t.active.isEmpty = true) :
    (d.tick t).Dated := by
  have hrows : ∀ process ∈ t.processes, (measureRow window t.active process).2 = none :=
    fun process hprocess => ((measureRow_spec hlong t.active (ht process hprocess)).2.1 hempty).2
  have hnot : ∀ pid, t.measures (d.answer t) pid = false := by
    intro pid
    rw [hanswer, DiskTick.measures, Option.any_some, Bool.and_eq_false_iff]
    refine Or.inr (List.any_eq_false.mpr fun process hprocess => ?_)
    simp [hrows process hprocess]
  refine hd.of_unmeasured rfl (fun pid hpid => ?_) (DiskTrace.measuredAt_of_not hnot)
    (Or.inl ⟨?_, Or.inl ?_, Or.inr ?_⟩)
  · rw [hstate] at hpid
    obtain ⟨sample, hsample⟩ := Option.ne_none_iff_exists'.mp hpid
    obtain ⟨-, ⟨hold, -⟩ | ⟨row, hrow, -, hnew⟩⟩ := keepMeasured_eq_some hsample
    · rw [DiskTrace.ne_none_of_kept hold]
      exact Option.some_ne_none sample
    · obtain ⟨process, hprocess, rfl⟩ := List.mem_map.mp hrow
      rw [hrows process hprocess] at hnew
      cases hnew
  · have hnotShort : ¬ window.sinceMs < MIN_WINDOW_MS := Nat.not_lt_of_le hlong
    simp [DiskTrace.tick, hanswer, hnotShort, hempty]
  · simp [DiskTrace.tick, hanswer, hlong]
  · simp [DiskTrace.tick, hanswer, hdecoded]

/-- What is kept is of this tick. -/
theorem DiskTrace.measuredAt_of_kept (hactive : t.active.isEmpty = false) (pid : ℕ)
    (hpid : (d.tick t).state.lastProcDisk pid ≠ none) : (d.tick t).measuredAt pid = some d.now := by
  rw [hstate] at hpid
  obtain ⟨sample, hsample⟩ := Option.ne_none_iff_exists'.mp hpid
  obtain ⟨process, hprocess, rfl⟩ := List.mem_map.mp (keepMeasured_eq_some hsample).1
  obtain ⟨-, readBps, writeBps, hrow⟩ :=
    (measureRow_spec hlong t.active (ht process hprocess)).2.2 hactive
  have hmeasures : t.measures (d.answer t) process.pid = true := by
    rw [hanswer, DiskTick.measures, Option.any_some, decide_eq_true hlong, hdecoded,
      Bool.true_and, Bool.true_and, List.any_eq_true]
    refine ⟨process, hprocess, ?_⟩
    simp [hrow]
  simp only [DiskTrace.tick, hmeasures, if_true]

theorem DiskTrace.Dated.remeasured (hd : d.Dated) (hactive : t.active.isEmpty = false) :
    (d.tick t).Dated := by
  have hmeasured := DiskTrace.measuredAt_of_kept ht hanswer hlong hdecoded hstate hactive
  have hlongAt : (d.tick t).longAt = some d.now := by simp [DiskTrace.tick, hanswer, hlong]
  have hunknownPast : ∀ u, (d.tick t).unknownAt = some u → u < d.now := by
    intro u hu
    have hunknownAt : (d.tick t).unknownAt = d.unknownAt := by
      simp [DiskTrace.tick, hanswer, hdecoded]
    rw [hunknownAt] at hu
    exact hd.unknownPast u hu
  have hpast : ∀ pid m, (d.tick t).measuredAt pid = some m → m < d.now + 1 := by
    intro pid m hm
    simp only [DiskTrace.tick] at hm
    split at hm
    · obtain rfl := Option.some.inj hm
      omega
    · have hbefore := hd.past pid m hm
      omega
  refine ⟨hpast, fun u hu => ?_, fun pid hpid => ?_, fun _ => ⟨d.now, hlongAt, hunknownPast,
    hmeasured⟩, fun _ _ _ _ _ => ?_⟩
  · have hbefore := hunknownPast u hu
    exact Nat.lt_succ_of_lt hbefore
  · rw [hmeasured pid hpid]
    exact Option.some_ne_none d.now
  · have hnotShort : ¬ window.sinceMs < MIN_WINDOW_MS := Nat.not_lt_of_le hlong
    simp [DiskTrace.tick, hanswer, hdecoded, hnotShort, hactive]

end Measured

/-- **A tick keeps the trace dated.** -/
theorem DiskTrace.Dated.tick (hd : d.Dated) (ht : ∀ process ∈ t.processes, Enumerated process) :
    (d.tick t).Dated := by
  obtain ⟨source, ⟨hanswer, htick⟩ | ⟨window, hanswer, ⟨hshort, htick⟩ | ⟨-, hdecoded, htick⟩ |
      ⟨hlong, hdecoded, htick⟩⟩⟩ :=
    applyProcessDisk_cases (d.state.evict t.evicted) t.outside t.active t.processes
  · exact hd.unanswered hanswer (congrArg (·.1.lastProcDisk) htick)
  · exact hd.short hanswer hshort (congrArg (·.1.lastProcDisk) htick)
  · exact hd.undecoded hanswer hdecoded (congrArg (·.1.lastProcDisk) htick)
  · have hstate := congrArg (·.1.lastProcDisk) htick
    cases hempty : t.active.isEmpty with
    | true => exact hd.inactive ht hanswer hlong hdecoded hstate hempty
    | false => exact hd.remeasured ht hanswer hlong hdecoded hstate hempty

end Tick

/-- **A run carries fresh readings only, exactly when each of its ticks is gap-free.** -/
theorem carried_fresh_iff (ticks : List DiskTick)
    (h : ∀ t ∈ ticks, ∀ process ∈ t.processes, Enumerated process) :
    Machine.Along DiskTrace.step DiskTrace.CarriesFresh {} ticks ↔
      Machine.Along DiskTrace.step DiskTrace.GapFree {} ticks := by
  have hinit : ({} : DiskTrace).Dated := by
    refine ⟨?_, ?_, ?_, ?_, ?_⟩
    · intro pid m hm
      cases hm
    · intro u hu
      cases hu
    · intro pid hpid
      exact absurd rfl hpid
    · intro hsettled
      cases hsettled
    · intro pid m hm
      cases hm
  refine Machine.along_iff_of_invariant (I := DiskTrace.Dated) ?_ ?_ hinit h
  · intro d t d' hd ht hstep
    obtain rfl := Option.some.inj hstep
    exact hd.tick ht
  · intro d t hd _
    exact hd.carriesFresh_iff t

/-- A measured window and, after the trace went on, a window too short to measure. -/
theorem carried_fresh_iff_example :
    let process : ProcessEntry := { pid := 8, name := "a.exe".toList }
    let window : DiskWindow :=
      { procs := ∅, unattributedServiceTime := 0, diskTotals := [], sinceMs := 1000, eventsSeen := 0
        eventsDecoded := 0 }
    let outside : DiskOutside :=
      { demanded := true, now := 0, ask := fun _ => .unavailable, starts := true, running := true
        totals := window }
    let active : DiskActive := (∅ : DiskActive).insert 0 50
    let ticks : List DiskTick :=
      [{ outside := outside, active := active, processes := [process], evicted := [] },
        { outside := { outside with totals := { window with sinceMs := 5 } }
          active := active, processes := [process], evicted := [] }]
    Machine.Along DiskTrace.step DiskTrace.CarriesFresh {} ticks ↔
      Machine.Along DiskTrace.step DiskTrace.GapFree {} ticks := by
  intro process window outside active ticks
  refine carried_fresh_iff ticks fun t ht p hp => ?_
  rcases List.mem_cons.mp ht with rfl | ht
  · obtain rfl := List.mem_singleton.mp hp
    exact ⟨rfl, rfl, rfl⟩
  · obtain rfl := List.mem_singleton.mp ht
    obtain rfl := List.mem_singleton.mp hp
    exact ⟨rfl, rfl, rfl⟩

/-- The local trace ends after a measured window.  It is started again half a minute later, and its
first window is too short: the old reading is shown. -/
theorem carried_over_lost_trace :
    let process : ProcessEntry := { pid := 8, name := "a.exe".toList }
    let window : DiskWindow :=
      { procs := ∅, unattributedServiceTime := 0, diskTotals := [], sinceMs := 1000, eventsSeen := 0
        eventsDecoded := 0 }
    let outside : DiskOutside :=
      { demanded := true, now := 0, ask := fun _ => .unavailable, starts := true, running := true
        totals := window }
    let tick : DiskTick :=
      { outside := outside, active := (∅ : DiskActive).insert 0 50, processes := [process]
        evicted := [] }
    ¬Machine.Along DiskTrace.step DiskTrace.CarriesFresh {}
      [tick, { tick with outside := { outside with now := 1000, running := false } },
        { tick with
          outside := { outside with now := 31000, totals := { window with sinceMs := 0 } } }] := by
  intro process window outside tick h
  let before : DiskTrace := (({} : DiskTrace).tick tick).tick
    { tick with outside := { outside with now := 1000, running := false } }
  let late : DiskTick :=
    { tick with outside := { outside with now := 31000, totals := { window with sinceMs := 0 } } }
  have hthird : before.CarriesFresh late := ((h.2 _ rfl).2 _ rfl).1
  have hkept : (before.kept late 8).map ProcDiskSample.startEpochS = some process.startEpochS := by
    decide +kernel
  have hanswer : (before.answer late).map DiskWindow.sinceMs = some 0 := by decide +kernel
  obtain ⟨sample, hsample, hstart⟩ := Option.map_eq_some_iff.mp hkept
  obtain ⟨short, hshort, hzero⟩ := Option.map_eq_some_iff.mp hanswer
  obtain ⟨m, hmeasured, -, hunknown⟩ := hthird process
    ⟨List.mem_singleton.mpr rfl, rfl, ⟨short, hshort, by rw [hzero]; decide⟩, sample, hsample,
      hstart⟩
  have hfirst : before.measuredAt 8 = some 0 := by decide +kernel
  have hlost : before.unknownAt = some 1 := by decide +kernel
  obtain rfl := Option.some.inj (hfirst.symm.trans hmeasured)
  exact absurd (hunknown 1 hlost) (by decide)

end Taskman.Sampler
