import Taskman.Collections.Rolling
import Taskman.LTS.Machine
import Taskman.Numeric.Rounding
import Taskman.Text.Basic

/-!
# The history behind the charts

Each sample of the sampler is appended to a history, whose capacity follows from the length of the
window that the charts show.  A chart paints the samples inside the window and the one before it,
so that its curve enters at the left edge.

* `historyCapFor`, `pushHistoryPoint`, `visibleSlice` : the capacity, the buffer and what a page
  takes from it;
* `Watched` : the history along a run of samples and of changes of the window, with all samples
  pushed and those pushed under the present capacity;
* `Watched.Covers` : a window that could be covered is;
* `covers_along_iff` : **along a run it is, exactly if never as many samples as the buffer holds lie
  after the left edge**;
* `Retained.countP_le_historyCap`, `Retained.fits_of_lt_minute` : the buffer is short of at most one
  sample, and of none if the window is less than a minute.
-/

namespace Taskman

namespace Performance

/-! ### Samples -/

/-- What is remembered of an adapter. -/
structure GpuHistoryPoint where
  id : ℕ
  utilPct : ℚ
  dedicatedUsedBytes : ℕ
  deriving DecidableEq

/-- One tick of history, with its finite floating-point numbers. -/
structure HistoryPoint where
  tMs : ℕ
  cpuTotal : ℚ
  cpuKernel : ℚ
  perCore : List ℚ
  perCoreKernel : List ℚ
  /-- Mount, activity in percent, bytes read and written per second. -/
  disks : List (Text × Option ℚ × ℚ × ℚ)
  /-- Name, bytes received and sent per second. -/
  nets : List (Text × ℚ × ℚ)
  gpus : List GpuHistoryPoint
  /-- Adapter, engine and utilization. -/
  gpuEngines : List (ℕ × Text × ℚ)
  deriving DecidableEq

/-! ### The buffer -/

/-- The interval of the fastest update speed, in milliseconds. -/
def UPDATE_SPEED_HIGH_MS : ℕ := 500

/-- The same in seconds. -/
def historyMinIntervalS : ℚ := UPDATE_SPEED_HIGH_MS / 1000

/-- Capacity for `seconds` of visible history sampled at the fastest configured speed, before it is
clamped. -/
def historyTicks (seconds : ℕ) (minIntervalS : ℚ) : ℕ :=
  ⌈binary64.round (seconds / minIntervalS)⌉₊

/-- How many points a window needs. -/
def historyCapFor (seconds : ℕ) (minIntervalS : ℚ) : ℕ :=
  max 120 (min 1440 (historyTicks seconds minIntervalS))

/-- Append one tick to the rolling history.  The capacity is not zero, so that there is an element
to remove when it is reached. -/
def pushHistoryPoint (history : List HistoryPoint) (cap : ℕ) (pt : HistoryPoint) :
    List HistoryPoint :=
  (if cap ≤ history.length then history.tail else history) ++ [pt]

/-- Index of the oldest point inside the window. -/
def windowStart (history : List HistoryPoint) (seconds : ℕ) : ℕ :=
  match history.getLast? with
  | none => 0
  | some last =>
    let cutoff := last.tMs - seconds * 1000
    -- backward from the newest: a step of the clock leaves older points with larger timestamps
    Rolling.scanBack (fun point => cutoff ≤ point.tMs) history history.length

/-- The points inside the window and the one before it. -/
def visibleSlice (history : List HistoryPoint) (seconds : ℕ) : List HistoryPoint :=
  history.drop (windowStart history seconds - 1)

/-- The part of the application that keeps the history. -/
structure Graphs where
  graphSeconds : ℕ
  historyCap : ℕ
  history : List HistoryPoint

/-- Graphs without points. -/
def Graphs.new (graphSeconds : ℕ) : Graphs :=
  ⟨graphSeconds, historyCapFor graphSeconds historyMinIntervalS, []⟩

/-- The data pass under a setting of the window. -/
def Graphs.logic (g : Graphs) (graphSeconds : ℕ) : Graphs :=
  let wantCap := historyCapFor graphSeconds historyMinIntervalS
  if wantCap ≠ g.historyCap then
    { graphSeconds
      historyCap := wantCap
      history :=
        if wantCap < g.history.length then g.history.drop (g.history.length - wantCap)
        else g.history }
  else { g with graphSeconds }

/-- A point is added, and the oldest one dropped if there are too many. -/
def Graphs.push (g : Graphs) (pt : HistoryPoint) : Graphs :=
  { g with history := pushHistoryPoint g.history g.historyCap pt }

/-! ### Runs -/

/-- What happens to the graphs. -/
inductive Event where
  | window (graphSeconds : ℕ)
  | sample (pt : HistoryPoint)

/-- The history, with all samples pushed so far and those pushed under the present capacity. -/
structure Watched where
  graphs : Graphs
  pushed : List HistoryPoint
  fresh : List HistoryPoint

namespace Watched

/-- Graphs that nothing has happened to. -/
def start (graphSeconds : ℕ) : Watched := ⟨Graphs.new graphSeconds, [], []⟩

/-- The graphs after an event. -/
def next (w : Watched) : Event → Watched
  | .window graphSeconds =>
    let graphs := w.graphs.logic graphSeconds
    ⟨graphs, w.pushed, if graphs.historyCap = w.graphs.historyCap then w.fresh else []⟩
  | .sample pt => ⟨w.graphs.push pt, w.pushed ++ [pt], w.fresh ++ [pt]⟩

/-- The samples come at least the fastest interval apart. -/
def Admits (w : Watched) : Event → Prop
  | .window _ => True
  | .sample pt => ∀ last ∈ w.pushed.getLast?, last.tMs + UPDATE_SPEED_HIGH_MS ≤ pt.tMs

instance (w : Watched) : ∀ e, Decidable (w.Admits e)
  | .window _ => inferInstanceAs (Decidable True)
  | .sample pt =>
    inferInstanceAs (Decidable (∀ last ∈ w.pushed.getLast?,
      last.tMs + UPDATE_SPEED_HIGH_MS ≤ pt.tMs))

/-- An event as a step of a run, if it is admitted. -/
def step (w : Watched) (e : Event) : Option Watched := if w.Admits e then some (w.next e) else none

theorem step_eq_some {w w' : Watched} {e : Event} :
    w.step e = some w' ↔ w.Admits e ∧ w' = w.next e := by
  rw [step]
  split
  · rename_i h
    rw [Option.some_inj, eq_comm, iff_and_self]
    exact fun _ => h
  · rename_i h
    exact iff_of_false nofun fun hadmits => h hadmits.1

/-- The left edge of the window: the newest timestamp minus the window. -/
def leftEdge (w : Watched) : ℕ :=
  (w.pushed.getLast?.elim 0 HistoryPoint.tMs) - w.graphs.graphSeconds * 1000

/-- The capacity is not limited from above, and a sample older than the left edge was pushed under
it. -/
structure Coverable (w : Watched) : Prop where
  unclamped : historyTicks w.graphs.graphSeconds historyMinIntervalS ≤ 1440
  older : ∃ point ∈ w.fresh, point.tMs < w.leftEdge

/-- The slice begins at the left edge or before and holds every sample pushed inside the window. -/
structure Covered (w : Watched) : Prop where
  starts : ∃ first ∈ (visibleSlice w.graphs.history w.graphs.graphSeconds).head?,
    first.tMs ≤ w.leftEdge
  complete : ∀ point ∈ w.pushed, w.leftEdge ≤ point.tMs →
    point ∈ visibleSlice w.graphs.history w.graphs.graphSeconds

/-- What can be covered is. -/
def Covers (w : Watched) : Prop := w.Coverable → w.Covered

/-- Fewer samples than the buffer can hold were pushed with a timestamp after the left edge. -/
def Fits (w : Watched) : Prop :=
  w.Coverable → w.pushed.countP (fun point => w.leftEdge < point.tMs) < w.graphs.historyCap

end Watched

/-! ### What the history keeps -/

theorem historyCapFor_pos (seconds : ℕ) (minIntervalS : ℚ) :
    0 < historyCapFor seconds minIntervalS :=
  lt_of_lt_of_le (by norm_num) (le_max_left 120 _)

/-- At the fastest speed the window has two ticks a second. -/
theorem historyTicks_high {seconds : ℕ} (h : seconds < 2 ^ 32) :
    historyTicks seconds historyMinIntervalS = 2 * seconds := by
  have hdiv : (seconds : ℚ) / historyMinIntervalS = ((2 * seconds : ℕ) : ℤ) := by
    rw [historyMinIntervalS, UPDATE_SPEED_HIGH_MS]
    push_cast
    ring
  have hrepr : binary64.Representable ((2 * seconds : ℕ) : ℤ) := by
    refine BinaryFormat.representable_intCast (by decide) ?_
    rw [Nat.abs_cast]
    have h53 : 2 * seconds ≤ 2 ^ 53 := by omega
    exact_mod_cast h53
  rw [historyTicks, hdiv, BinaryFormat.round_of_representable hrepr, Int.cast_natCast,
    Nat.ceil_natCast]

/-- Changing the window leaves the buffer as it is, or cuts it to what fits. -/
theorem Graphs.logic_cases (g : Graphs) (graphSeconds : ℕ) :
    (g.logic graphSeconds).graphSeconds = graphSeconds ∧
      (g.logic graphSeconds).historyCap = historyCapFor graphSeconds historyMinIntervalS ∧
      ((g.logic graphSeconds).historyCap = g.historyCap ∧
          (g.logic graphSeconds).history = g.history ∨
        (g.logic graphSeconds).historyCap ≠ g.historyCap ∧
          (g.logic graphSeconds).history =
            g.history.drop (g.history.length - (g.logic graphSeconds).historyCap)) := by
  by_cases hcap : historyCapFor graphSeconds historyMinIntervalS = g.historyCap
  · have hlogic : g.logic graphSeconds = { g with graphSeconds } := if_neg (not_not.mpr hcap)
    rw [hlogic]
    exact ⟨rfl, hcap.symm, Or.inl ⟨rfl, rfl⟩⟩
  · rw [Graphs.logic, if_pos hcap]
    refine ⟨rfl, rfl, Or.inr ⟨hcap, ?_⟩⟩
    dsimp only
    split
    · rfl
    · rename_i hfits
      rw [Nat.sub_eq_zero_of_le (Nat.not_lt.mp hfits), List.drop_zero]

namespace Watched

variable {w w' : Watched} {e : Event}

/-- The samples are spaced, and the buffer keeps what it can of them. -/
structure Retained (w : Watched) : Prop where
  spaced : w.pushed.Pairwise fun a b => a.tMs + UPDATE_SPEED_HIGH_MS ≤ b.tMs
  cap_eq : w.graphs.historyCap = historyCapFor w.graphs.graphSeconds historyMinIntervalS
  keeps : Rolling.Keeps w.graphs.historyCap w.pushed w.fresh w.graphs.history

theorem Retained.start (graphSeconds : ℕ) : (start graphSeconds).Retained where
  spaced := List.Pairwise.nil
  cap_eq := rfl
  keeps := Rolling.Keeps.nil _

theorem Retained.cap_pos (h : w.Retained) : 0 < w.graphs.historyCap :=
  h.cap_eq ▸ historyCapFor_pos _ _

theorem Retained.sorted (h : w.Retained) : w.pushed.Pairwise fun a b => a.tMs < b.tMs :=
  h.spaced.imp fun hab => lt_of_lt_of_le (Nat.lt_add_of_pos_right (by decide)) hab

/-- No sample is later than the newest. -/
theorem Retained.le_newest (h : w.Retained) {last point : HistoryPoint}
    (hlast : w.pushed.getLast? = some last) (hpoint : point ∈ w.pushed) :
    point.tMs ≤ last.tMs := by
  obtain ⟨init, hinit⟩ := List.getLast?_eq_some_iff.mp hlast
  have hsorted := h.sorted
  rw [hinit] at hpoint hsorted
  rcases List.mem_append.mp hpoint with hmem | hmem
  · exact ((List.pairwise_append.mp hsorted).2.2 point hmem last (List.mem_singleton_self last)).le
  · rw [List.mem_singleton.mp hmem]

theorem Retained.next (h : w.Retained) (hadmits : w.Admits e) : (w.next e).Retained := by
  cases e with
  | window graphSeconds =>
    obtain ⟨hseconds, hwant, hcases⟩ := w.graphs.logic_cases graphSeconds
    refine ⟨h.spaced, hwant.trans (congrArg (historyCapFor · _) hseconds.symm), ?_⟩
    rcases hcases with ⟨hcap, hhistory⟩ | ⟨hcap, hhistory⟩
    · rw [Watched.next, if_pos hcap, hcap, hhistory]
      exact h.keeps
    · rw [Watched.next, if_neg hcap, hhistory]
      exact h.keeps.resize (hwant ▸ historyCapFor_pos _ _)
  | sample pt =>
    refine ⟨List.pairwise_append.mpr ⟨h.spaced, List.pairwise_singleton _ _, ?_⟩, h.cap_eq,
      h.keeps.push h.cap_pos pt⟩
    intro point hpoint pt' hpt'
    obtain rfl := List.mem_singleton.mp hpt'
    obtain ⟨last, hlast⟩ := Option.isSome_iff_exists.mp
      (List.getLast?_isSome.mpr (List.ne_nil_of_mem hpoint))
    exact (Nat.add_le_add_right (h.le_newest hlast hpoint) _).trans (hadmits last hlast)

theorem Retained.step (h : w.Retained) (hstep : w.step e = some w') : w'.Retained := by
  obtain ⟨hadmits, rfl⟩ := step_eq_some.mp hstep
  exact h.next hadmits

/-! ### What a page shows -/

/-- The newest sample is in the buffer, so that the page and the window agree on the left edge. -/
theorem Retained.getLast?_history (h : w.Retained) :
    w.graphs.history.getLast? = w.pushed.getLast? := by
  by_cases hnil : w.graphs.history = []
  · have hpushed : w.pushed = [] := by
      by_contra hne
      exact h.keeps.ne_nil hne hnil
    rw [hnil, hpushed]
  · obtain ⟨pre, hpre⟩ := h.keeps.suffix
    rw [← hpre, List.getLast?_append_of_ne_nil _ hnil]

/-- The scan for the window starts from its left edge. -/
theorem Retained.windowStart_eq (h : w.Retained) (hne : w.graphs.history ≠ []) :
    windowStart w.graphs.history w.graphs.graphSeconds =
      Rolling.scanBack (fun point => w.leftEdge ≤ point.tMs) w.graphs.history
        w.graphs.history.length := by
  obtain ⟨last, hlast⟩ := Option.isSome_iff_exists.mp (List.getLast?_isSome.mpr hne)
  have hedge : w.leftEdge = last.tMs - w.graphs.graphSeconds * 1000 := by
    rw [leftEdge, ← h.getLast?_history, hlast]
    rfl
  rw [windowStart, hlast, hedge]

/-- **A slice covers its window exactly when the buffer reaches back to the left edge.** -/
theorem Retained.covered_iff_reaches (h : w.Retained) :
    w.Covered ↔ ∃ point ∈ w.graphs.history, point.tMs ≤ w.leftEdge := by
  constructor
  · rintro ⟨⟨first, hfirst, hle⟩, -⟩
    exact ⟨first, List.mem_of_mem_drop (List.mem_of_mem_head? hfirst), hle⟩
  · intro hreach
    obtain ⟨x, hx, -⟩ := id hreach
    have hsorted : w.graphs.history.Pairwise fun a b => a.tMs < b.tMs :=
      h.sorted.sublist h.keeps.suffix.sublist
    obtain ⟨k, hk, hbound, hslice⟩ : ∃ k, ∃ hk : k < w.graphs.history.length,
        w.graphs.history[k].tMs ≤ w.leftEdge ∧
          visibleSlice w.graphs.history w.graphs.graphSeconds = w.graphs.history.drop k := by
      obtain ⟨hlt, hle⟩ := Rolling.key_pred_scanBack_le HistoryPoint.tMs hsorted hreach
      refine ⟨_, hlt, hle, ?_⟩
      rw [visibleSlice, h.windowStart_eq (List.ne_nil_of_mem hx)]
    refine ⟨⟨w.graphs.history[k], ?_, hbound⟩, fun point hpoint hle => ?_⟩
    · rw [hslice, List.head?_drop, List.getElem?_eq_getElem hk, Option.mem_some]
    · rw [hslice]
      exact Rolling.mem_drop_of_le hsorted hk hbound
        (h.keeps.mem_of_le HistoryPoint.tMs h.sorted hreach hpoint hle) hle

/-- **A window that could be covered is, exactly when the samples after the left edge fit.** -/
theorem Retained.covers_iff (h : w.Retained) : w.Covers ↔ w.Fits :=
  forall_congr' fun hcoverable => by
    obtain ⟨old, hold, hlt⟩ := hcoverable.older
    rw [h.covered_iff_reaches]
    exact h.keeps.exists_le_iff HistoryPoint.tMs h.sorted ⟨old, hold, hlt.le⟩

/-! ### The fastest speed -/

/-- Two samples a second at most lie after the left edge. -/
theorem Retained.countP_le (h : w.Retained) :
    w.pushed.countP (fun point => w.leftEdge < point.tMs) ≤ 2 * w.graphs.graphSeconds := by
  cases hlast : w.pushed.getLast? with
  | none => simp [List.getLast?_eq_none_iff.mp hlast]
  | some last =>
    have hcount := Rolling.mul_countP_lt UPDATE_SPEED_HIGH_MS w.leftEdge
      (by decide) h.spaced fun point hpoint => h.le_newest hlast hpoint
    have hedge : last.tMs - w.leftEdge ≤ w.graphs.graphSeconds * 1000 := by
      rw [leftEdge, hlast, Option.elim_some]
      omega
    rw [UPDATE_SPEED_HIGH_MS] at hcount
    omega

/-- **The buffer is short of at most one sample.** -/
theorem Retained.countP_le_historyCap (h : w.Retained) (hseconds : w.graphs.graphSeconds < 2 ^ 32)
    (hcoverable : w.Coverable) :
    w.pushed.countP (fun point => w.leftEdge < point.tMs) ≤ w.graphs.historyCap := by
  have hunclamped := hcoverable.unclamped
  rw [h.cap_eq, historyCapFor, historyTicks_high hseconds]
  rw [historyTicks_high hseconds] at hunclamped
  rw [min_eq_right hunclamped]
  exact h.countP_le.trans (le_max_right _ _)

/-- **Windows of less than a minute are covered**: the capacity has a lower bound. -/
theorem Retained.fits_of_lt_minute (h : w.Retained) (hseconds : w.graphs.graphSeconds < 60) :
    w.Fits := by
  intro _
  have hcount := h.countP_le
  have hcap : 120 ≤ w.graphs.historyCap := h.cap_eq ▸ le_max_left 120 _
  omega

end Watched

/-- **Along a run the windows are covered, exactly if never as many samples as the buffer holds were
pushed with a timestamp after the left edge.** -/
theorem covers_along_iff (graphSeconds : ℕ) (events : List Event) :
    Machine.Throughout Watched.step Watched.Covers (Watched.start graphSeconds) events ↔
      Machine.Throughout Watched.step Watched.Fits (Watched.start graphSeconds) events := by
  refine forall₄_congr fun pre w _ hrun => Watched.Retained.covers_iff ?_
  exact Machine.invariant (fun _ _ _ h hstep => h.step hstep) (Watched.Retained.start _) hrun

/-- A tick with nothing to show. -/
def emptyTick (tMs : ℕ) : HistoryPoint := ⟨tMs, 0, 0, [], [], [], [], [], []⟩

/-- A run at the fastest speed, half a second longer than the window. -/
def fastRun : List Event := (List.range 122).map fun i => .sample (emptyTick (i * 500))

/-- **A minute at the fastest speed has one sample more than the buffer**: the sample at the left
edge is gone. -/
theorem fastRun_uncovered :
    ¬ Machine.Throughout Watched.step Watched.Covers (Watched.start 60) fastRun := by
  intro hcovers
  have hfinal : ∃ w, Machine.exec Watched.step (Watched.start 60) fastRun = some w ∧
      historyTicks w.graphs.graphSeconds historyMinIntervalS ≤ 1440 ∧
      (∃ point ∈ w.fresh, point.tMs < w.leftEdge) ∧
      ∀ first ∈ (visibleSlice w.graphs.history w.graphs.graphSeconds).head?,
        ¬ first.tMs ≤ w.leftEdge := by
    refine ⟨_, (Option.some_get (x := Machine.exec Watched.step (Watched.start 60) fastRun)
      (by decide +kernel)).symm, ?_⟩
    decide +kernel
  obtain ⟨w, hrun, hunclamped, holder, hlate⟩ := hfinal
  obtain ⟨⟨first, hfirst, hle⟩, -⟩ := hcovers fastRun w List.prefix_rfl hrun ⟨hunclamped, holder⟩
  exact hlate first hfirst hle

end Performance

end Taskman
