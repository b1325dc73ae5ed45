import Taskman.Platform.PerfCounters.Reads

/-!
# Readings of an earlier tick

A reader hands out values of a group that is open and warm.  A group becomes warm with its second
successful collection and stays so until it is opened again: a collection that fails afterwards
leaves it warm, and the readers then hand out what was collected before.

* `GroupHistory` : how many collections of a group succeeded since it was last opened, and whether
  the latest tick's did;
* `PdhLog.step` : a tick or a reading, with the histories kept beside;
* `QueryGroup.Counted` : the count and the warm flag of an open group tell its history;
* `PdhLog.Fresh`, `PdhLog.readings_fresh_iff` : **the readings are of the latest tick exactly while
  no warm group is read after a tick whose collection of it failed**.
-/

namespace Taskman

/-! ### What a group's count and its warm flag tell -/

namespace QueryGroup

/-- After `n` successful collections since it was opened. -/
structure Counted (g : QueryGroup) (n : ℕ) : Prop where
  collectionsDone : g.collectionsDone = min n (2 ^ 32 - 1)
  warm : g.warm = decide (2 ≤ n)

/-- A group that opens starts its count again. -/
theorem counted_open {g : QueryGroup} (hclosed : g.isOpen = false) {answers : PdhAnswers}
    {paths : List Text} (hopen : (g.open_ answers paths).isOpen = true) :
    (g.open_ answers paths).Counted 0 := by
  unfold open_ at hopen ⊢
  split at hopen
  · rw [hclosed] at hopen
    cases hopen
  · rename_i hguard
    rw [if_neg hguard]
    cases hquery : answers.openQuery with
    | none =>
      rw [hquery] at hopen
      exact absurd (hclosed.symm.trans hopen) Bool.false_ne_true
    | some q => exact ⟨rfl, rfl⟩

/-- Only a successful collection counts. -/
theorem Counted.collect {g : QueryGroup} {n : ℕ} (h : g.Counted n) (hopen : g.isOpen = true)
    (answers : PdhAnswers) (now : ℕ) :
    (g.collect answers now).2.Counted (n + answers.collectData.toNat) := by
  have hcount : saturatingSucc g.collectionsDone = min (n + 1) (2 ^ 32 - 1) := by
    rw [saturatingSucc, h.collectionsDone]
    omega
  unfold QueryGroup.collect
  rw [if_pos hopen]
  cases answers.collectData with
  | false => exact ⟨h.collectionsDone, h.warm⟩
  | true =>
    dsimp only [Bool.toNat_true]
    rw [if_pos rfl, hcount, h.warm]
    by_cases hwarm : 2 ≤ n
    · rw [decide_eq_true hwarm, if_pos rfl]
      exact ⟨rfl, (decide_eq_true (Nat.le_succ_of_le hwarm)).symm⟩
    · rw [decide_eq_false hwarm, if_neg Bool.false_ne_true]
      split
      · rename_i htwo
        exact ⟨rfl, (decide_eq_true (by omega)).symm⟩
      · rename_i htwo
        exact ⟨rfl, (decide_eq_false (by omega)).symm⟩

theorem Counted.maybeSleep {g : QueryGroup} {n : ℕ} (h : g.Counted n) {now : ℕ} {needed : Bool}
    (hopen : (g.maybeSleep now needed).isOpen = true) : (g.maybeSleep now needed).Counted n := by
  unfold QueryGroup.maybeSleep at hopen ⊢
  split
  · exact ⟨h.collectionsDone, h.warm⟩
  · split
    · simp_all [close, isOpen]
    · exact h

end QueryGroup

/-! ### Histories -/

/-- The history of a group. -/
structure GroupHistory where
  /-- How many collections succeeded since it was last opened. -/
  successes : ℕ := 0
  /-- Whether its collection in the latest tick succeeded. -/
  latest : Bool := false

/-- The history after a tick.  A group opens before it is collected, and one that is open after the
tick was collected in it. -/
def GroupHistory.after (h : GroupHistory) (before after : Slot) (answers : PdhAnswers) :
    GroupHistory :=
  if after.isOpen then
    { successes := (if before.isOpen then h.successes else 0) + answers.collectData.toNat
      latest := answers.collectData }
  else {}

namespace Slot

/-- The group of the slot, where it is open, has had that many successful collections. -/
def Counted (slot : Slot) (n : ℕ) : Prop :=
  ∀ g ∈ slot.group, g.isOpen = true → g.Counted n

theorem Counted.wake {slot : Slot} {n : ℕ} (h : slot.Counted n) (answers : PdhAnswers) (now : ℕ)
    (paths : List Text) (requireCounters : Bool) :
    (slot.wake answers now paths requireCounters).Counted (if slot.isOpen then n else 0) := by
  intro g hg hopen
  rw [isOpen_eq slot now]
  unfold Slot.wake at hg
  dsimp only at hg
  split at hg
  · rename_i hwas
    obtain rfl := Option.some.inj hg
    rw [if_pos hwas]
    cases hgroup : slot.group with
    | none =>
      rw [hgroup] at hwas
      cases hwas
    | some g =>
      rw [hgroup] at hwas
      exact h g hgroup hwas
  · rename_i hwas
    obtain rfl := Option.some.inj hg
    rw [if_neg hwas]
    exact QueryGroup.counted_open (Bool.eq_false_of_not_eq_true hwas) hopen

theorem Counted.serve {slot : Slot} {n : ℕ} (h : slot.Counted n) (answers : PdhAnswers) (now : ℕ)
    (want : Bool) : (slot.serve answers now want).Counted (n + answers.collectData.toNat) := by
  intro g hg hopen
  unfold Slot.serve at hg
  cases hgroup : slot.group with
  | none => simp [hgroup] at hg
  | some g₀ =>
    rw [hgroup] at hg
    obtain rfl := Option.some.inj hg
    cases hwas : g₀.isOpen with
    | false =>
      rw [hwas, if_neg Bool.false_ne_true, QueryGroup.isOpen_maybeSleep_of_closed hwas] at hopen
      cases hopen
    | true =>
      rw [hwas, if_pos rfl] at hopen
      exact ((h g₀ hgroup hwas).collect hwas answers now).maybeSleep hopen

/-- **A turn keeps the count and the warm flag in step with the history.** -/
theorem Counted.turn {slot : Slot} {h : GroupHistory} (hcounted : slot.Counted h.successes)
    (demanded : Bool) (answers : PdhAnswers) (now : ℕ) (paths : List Text)
    (requireCounters : Bool) :
    (slot.turn demanded answers now paths requireCounters).Counted
      (h.after slot (slot.turn demanded answers now paths requireCounters) answers).successes := by
  intro g hg hopen
  have hafter : (slot.turn demanded answers now paths requireCounters).isOpen = true := by
    rw [isOpen, Option.mem_def.mp hg]
    exact hopen
  rw [GroupHistory.after, if_pos hafter]
  unfold Slot.turn at hg hafter
  dsimp only at hg hafter ⊢
  rw [isOpen_serve] at hafter
  split at hg
  · exact (hcounted.wake answers now paths requireCounters).serve answers now _ g hg hopen
  · rename_i hwant
    rw [if_neg hwant] at hafter
    rw [if_pos hafter]
    exact hcounted.serve answers now _ g hg hopen

end Slot

/-! ### Runs of ticks and readings -/

/-- The counters between two calls, with the history of each group. -/
structure PdhLog where
  now : ℕ := 0
  pdh : PdhCounters := {}
  history : PdhGroup → GroupHistory := fun _ => {}

/-- A tick, or a reading with what the helper formats for it. -/
inductive PdhCall where
  | tick (t : PdhTick)
  | read (read : PdhRead) (readPairs : ReadPairs)

namespace PdhLog

/-- A tick, and what it adds to the history of each group. -/
def tick (s : PdhLog) (t : PdhTick) : PdhLog :=
  let pdh := s.pdh.tick t.demand t.answers (s.now + t.gap)
  { now := s.now + t.gap
    pdh
    history := fun group =>
      (s.history group).after (s.pdh.slot group) (pdh.slot group) (t.answers group) }

/-- A reading changes nothing. -/
def step (s : PdhLog) : PdhCall → Option PdhLog
  | .tick t => some (s.tick t)
  | .read _ _ => some s

/-- A reading of the latest tick: its group is open, has had two successful collections since it was
opened, and its collection in the latest tick succeeded. -/
structure OfLatestTick (s : PdhLog) (group : PdhGroup) : Prop where
  open_ : (s.pdh.slot group).isOpen = true
  twice : 2 ≤ (s.history group).successes
  latest : (s.history group).latest = true

/-- A reader returns a value only of the latest tick. -/
def Fresh (s : PdhLog) : PdhCall → Prop
  | .tick _ => True
  | .read read readPairs => read.returnsValue s.pdh readPairs = true → s.OfLatestTick read.group

/-- An open group that has had two successful collections, and of which the helper hands out enough
for the reader, is read only after a tick that collected it. -/
def Collected (s : PdhLog) : PdhCall → Prop
  | .tick _ => True
  | .read read readPairs =>
    ∀ g ∈ (s.pdh.slot read.group).group, g.isOpen = true →
      2 ≤ (s.history read.group).successes → read.offered g.counters readPairs = true →
        (s.history read.group).latest = true

/-- The flags of every group tell its history. -/
def Consistent (s : PdhLog) : Prop :=
  ∀ group, (s.pdh.slot group).Counted (s.history group).successes

theorem consistent_new : Consistent {} := by
  intro group g hg
  cases group <;> cases hg

theorem Consistent.step {s s' : PdhLog} (h : s.Consistent) {call : PdhCall}
    (hstep : s.step call = some s') : s'.Consistent := by
  cases call with
  | tick t =>
    obtain rfl := Option.some.inj hstep
    intro group
    dsimp only [tick]
    rw [PdhCounters.slot_tick]
    exact (h group).turn _ _ _ _ _
  | read read readPairs =>
    obtain rfl := Option.some.inj hstep
    exact h

/-- A reader returns a value exactly where the group is open, has had two successful collections
since it was opened, and the helper hands out enough. -/
theorem Consistent.returnsValue_iff {s : PdhLog} (h : s.Consistent) (read : PdhRead)
    (readPairs : ReadPairs) :
    read.returnsValue s.pdh readPairs = true ↔
      ∃ g ∈ (s.pdh.slot read.group).group, g.isOpen = true ∧
        2 ≤ (s.history read.group).successes ∧ read.offered g.counters readPairs = true := by
  rw [read.returnsValue_eq, Slot.readable]
  cases hgroup : (s.pdh.slot read.group).group with
  | none => simp
  | some g =>
    have hcounted := h read.group g hgroup
    cases hopen : g.isOpen with
    | false => simp [Option.filter, hopen]
    | true =>
      have hwarm := (hcounted hopen).warm
      by_cases htwice : 2 ≤ (s.history read.group).successes
      · simp [Option.filter, hopen, hwarm, htwice]
      · simp [Option.filter, hopen, hwarm, htwice]

/-- **One reading is of the latest tick exactly where it is not of a warm group whose collection
failed in it.** -/
theorem Consistent.fresh_iff {s : PdhLog} (h : s.Consistent) (call : PdhCall) :
    Fresh s call ↔ Collected s call := by
  cases call with
  | tick t => exact Iff.rfl
  | read read readPairs =>
    constructor
    · intro hfresh g hg hopen htwice hoffered
      exact (hfresh ((h.returnsValue_iff read readPairs).mpr
        ⟨g, hg, hopen, htwice, hoffered⟩)).latest
    · intro hcollected hreturns
      obtain ⟨g, hg, hopen, htwice, hoffered⟩ := (h.returnsValue_iff read readPairs).mp hreturns
      refine ⟨?_, htwice, hcollected g hg hopen htwice hoffered⟩
      rw [Slot.isOpen, Option.mem_def.mp hg]
      exact hopen

/-- **The readings of a run are of the latest tick exactly while no group that is warm is read after
a tick whose collection of it failed.** -/
theorem readings_fresh_iff (calls : List PdhCall) :
    Machine.Along step Fresh {} calls ↔ Machine.Along step Collected {} calls :=
  Machine.along_iff_of_invariant (A := fun _ => True) (I := Consistent)
    (fun _ _ _ hI _ hstep => hI.step hstep) (fun _ call hI _ => hI.fresh_iff call) consistent_new
    fun _ _ => trivial

/-! ### A collection that fails -/

/-- A helper that collects nothing any more. -/
def failingHelper (_ : PdhGroup) : PdhAnswers where
  openQuery := some 1
  addCounter _ := true
  collectData := false

/-- The adapters are shown for three seconds; the third collection fails, and what the helper still
formats is read. -/
def readAfterFailure : List PdhCall :=
  [.tick ⟨0, .GPU_ADAPTER, PdhRun.willingHelper⟩,
    .tick ⟨1000000000, .GPU_ADAPTER, PdhRun.willingHelper⟩,
    .tick ⟨1000000000, .GPU_ADAPTER, failingHelper⟩,
    .read .gpuEngines fun _ => []]

/-- There is a value, though the latest collection of the group failed. -/
theorem not_fresh_readAfterFailure : ¬ Machine.Along step Fresh {} readAfterFailure := by
  intro h
  obtain ⟨-, h⟩ := h
  obtain ⟨-, h⟩ := h _ rfl
  obtain ⟨-, h⟩ := h _ rfl
  obtain ⟨hfresh, -⟩ := h _ rfl
  exact absurd (hfresh (by decide +kernel)).latest (by decide +kernel)

end PdhLog

end Taskman
