import Taskman.Core.Model
import Taskman.LTS.Machine
import Taskman.Metering.Ledger
import Taskman.Numeric.Rounding
import Mathlib.Algebra.Order.Ring.Rat
import Mathlib.Algebra.Order.Group.Int
import Mathlib.Tactic.Linarith

/-!
# Measured startup impact

The tracker folds per-tick deltas of each process's CPU time and I/O bytes into per-image totals
for the whole startup window.  A process that started after boot is charged from zero when it has
no baseline.

* `StartupImpactTracker.observe` : one snapshot;
* `ImpactRun` : the tracker together with the rows it has read, as a machine;
* `ImpactRun.OwnBaselines` : a process already read is charged from its own last reading;
* `ImpactRun.NotRoundedUp` : no total is rounded up when a charge is added;
* `startup_charged_once` : **under these conditions no image is charged more than its instances'
  last readings**;
* `startup_charged_twice` : without it a row that misses a field for one tick is charged again.
-/

namespace Taskman

open Metering Metering.Ledger

/-- Length of the window measured after boot, in seconds. -/
def startupWindowS : ℕ := 120

/-- One image's accumulated startup cost. -/
structure ImpactSample where
  cpuMs : ℚ := 0
  diskBytes : ℕ := 0
  bootEpochS : ℤ := 0
  deriving DecidableEq

/-- Per-process cumulative counters as of the previous observation. -/
structure PrevCounters where
  startEpochS : Option ℤ
  cpuS : ℚ
  ioBytes : ℕ
  deriving DecidableEq

/-- Folds startup-window samples into per-image totals. -/
structure StartupImpactTracker where
  windowS : ℕ
  bootEpochS : Option ℤ
  totals : OrdMap Text ImpactSample := ∅
  prev : OrdMap ℕ PrevCounters := ∅
  /-- False once the window closed. -/
  active : Bool
  dirty : Bool := false

/-- The window is open only while the machine is still inside its startup. -/
def StartupImpactTracker.new (uptimeS : ℕ) (bootEpochS : ℤ) : StartupImpactTracker where
  windowS := startupWindowS
  bootEpochS := some bootEpochS
  active := uptimeS < startupWindowS

/-! ### One snapshot -/

/-- The image path, CPU seconds and I/O bytes of a row that has all of them. -/
def completeRow (p : ProcessEntry) : Option (Text × ℚ × ℕ) :=
  if p.synthetic then none else
  match p.exePath, p.cpuTimeS, checkedAdd p.diskReadTotal p.diskWriteTotal with
  | some path, some cpuS, some ioBytes => some (path, cpuS, ioBytes)
  | _, _, _ => none

/-- A process older than boot, or of unknown age, only contributes deltas. -/
def startedAfterBoot (boot : Option ℤ) (p : ProcessEntry) : Bool :=
  match p.startEpochS, boot with
  | some start, some boot => boot ≤ start
  | _, _ => false

/-- The previous tick of the pid, unless the start times show another process. -/
def previousOf (prev : OrdMap ℕ PrevCounters) (p : ProcessEntry) : Option PrevCounters :=
  prev[p.pid]?.filter fun prev => p.startEpochS.isNone || prev.startEpochS = p.startEpochS

/-- What a row is charged from. -/
def impactBaseline (boot : Option ℤ) (prev : OrdMap ℕ PrevCounters) (p : ProcessEntry) :
    Option (ℚ × ℕ) :=
  match previousOf prev p with
  | some prev => some (prev.cpuS, prev.ioBytes)
  | none => if startedAfterBoot boot p then some (0, 0) else none

/-- The advance of a CPU time in milliseconds, an `f64`. -/
def cpuDeltaMs (baseS nowS : ℚ) : ℚ := binary64.round (max (binary64.round (nowS - baseS)) 0 * 1000)

/-- A sample with the advance from `base` to `now` added. -/
def ImpactSample.add (e : ImpactSample) (base now : ℚ × ℕ) : ImpactSample :=
  { e with
    cpuMs := binary64.round (e.cpuMs + cpuDeltaMs base.1 now.1)
    diskBytes := saturatingAdd e.diskBytes (now.2 - base.2) }

/-- What the loop of `observe` carries from row to row. -/
structure ImpactAcc where
  totals : OrdMap Text ImpactSample
  live : OrdMap ℕ PrevCounters
  changed : Bool

/-- The sample of an image, a new one if it has none. -/
def sampleOf (boot : Option ℤ) (e : Option ImpactSample) : ImpactSample :=
  e.getD { bootEpochS := boot.getD 0 }

/-- Charge an image for the advance from `base` to `now`. -/
def ImpactAcc.charge (acc : ImpactAcc) (boot : Option ℤ) (key : Text) (base now : ℚ × ℕ) :
    ImpactAcc :=
  if 0 < cpuDeltaMs base.1 now.1 ∨ 0 < now.2 - base.2 then
    { acc with
      totals := acc.totals.alter key fun e => some ((sampleOf boot e).add base now)
      changed := true }
  else acc

/-- One turn of the loop of `observe`. -/
def impactRow (host : KeyHost) (boot : Option ℤ) (prev : OrdMap ℕ PrevCounters) (acc : ImpactAcc)
    (p : ProcessEntry) : ImpactAcc :=
  match completeRow p with
  | none => acc
  | some (path, cpuS, ioBytes) =>
    let key := processRuleKey host path
    let acc := match impactBaseline boot prev p with
      | some base => acc.charge boot key base (cpuS, ioBytes)
      | none => acc
    { acc with live := acc.live.insert p.pid ⟨p.startEpochS, cpuS, ioBytes⟩ }

namespace StartupImpactTracker

/-- The tracker looks at this snapshot's rows. -/
def watches (t : StartupImpactTracker) (snap : Snapshot) : Bool :=
  t.active && snap.system.uptimeS < t.windowS

/-- Feed one snapshot; the second component says whether the store is worth persisting. -/
def observe (host : KeyHost) (t : StartupImpactTracker) (snap : Snapshot) :
    StartupImpactTracker × Bool :=
  if !t.active then (t, false) else
  if t.windowS ≤ snap.system.uptimeS then ({ t with active := false }, t.dirty) else
  let acc := snap.processes.foldl (impactRow host t.bootEpochS t.prev) ⟨t.totals, ∅, false⟩
  ({ t with totals := acc.totals, prev := acc.live, dirty := t.dirty || acc.changed }, acc.changed)

end StartupImpactTracker

/-! ### The run and what it has read -/

/-- A process instance: pid and start time. -/
abbrev ProcessInstance := ℕ × Option ℤ

/-- A complete row, as the tracker reads it. -/
structure ImpactReading where
  inst : ProcessInstance
  key : Text
  /-- CPU seconds and I/O bytes. -/
  counters : ℚ × ℕ
  deriving DecidableEq

/-- The reading of a row that has all its counters. -/
def readingOf (host : KeyHost) (p : ProcessEntry) : Option ImpactReading :=
  (completeRow p).map fun row => ⟨(p.pid, p.startEpochS), processRuleKey host row.1, row.2⟩

/-- Adding the advance from `base` to `now` does not round the CPU time up. -/
def ImpactSample.NotRoundedUp (e : ImpactSample) (base now : ℚ × ℕ) : Prop :=
  (e.add base now).cpuMs ≤ e.cpuMs + max (now.1 - base.1) 0 * 1000

instance (e : ImpactSample) (base now : ℚ × ℕ) : Decidable (e.NotRoundedUp base now) :=
  inferInstanceAs (Decidable (_ ≤ _))

/-- The charge of a row does not round the CPU time of its image up. -/
def ImpactAcc.NotRoundedUp (host : KeyHost) (boot : Option ℤ) (prev : OrdMap ℕ PrevCounters)
    (acc : ImpactAcc) (p : ProcessEntry) : Prop :=
  ∀ r ∈ readingOf host p, ∀ base ∈ impactBaseline boot prev p,
    (sampleOf boot acc.totals[r.key]?).NotRoundedUp base r.counters

instance (host : KeyHost) (boot : Option ℤ) (prev : OrdMap ℕ PrevCounters) (acc : ImpactAcc)
    (p : ProcessEntry) : Decidable (acc.NotRoundedUp host boot prev p) :=
  inferInstanceAs (Decidable (∀ r ∈ readingOf host p, ∀ base ∈ impactBaseline boot prev p, _))

/-- The counters read of each instance. -/
def instanceLedger (rs : List ImpactReading) : Ledger ProcessInstance (ℚ × ℕ) :=
  rs.map fun r => (r.inst, r.counters)

/-- The tracker, and every complete row it has read so far. -/
structure ImpactRun where
  tracker : StartupImpactTracker
  read : List ImpactReading := []

namespace ImpactRun

/-- The readings a snapshot adds. -/
def readingsIn (host : KeyHost) (s : ImpactRun) (snap : Snapshot) : List ImpactReading :=
  if s.tracker.watches snap then snap.processes.filterMap (readingOf host) else []

/-- A snapshot as a step of a run. -/
def step (host : KeyHost) (s : ImpactRun) (snap : Snapshot) : Option ImpactRun :=
  some ⟨(s.tracker.observe host snap).1, s.read ++ s.readingsIn host snap⟩

/-- The counters shown are those of real processes: a snapshot lists an instance once, CPU time is
not negative, and no counter of an instance runs backwards. -/
structure Counted (host : KeyHost) (s : ImpactRun) (snap : Snapshot) : Prop where
  distinct : ((s.readingsIn host snap).map ImpactReading.inst).Nodup
  nonneg : ∀ r ∈ s.readingsIn host snap, 0 ≤ r.counters.1
  nondecreasing : Nondecreasing (instanceLedger (s.read ++ s.readingsIn host snap))

instance (host : KeyHost) (s : ImpactRun) (snap : Snapshot) : Decidable (Counted host s snap) :=
  decidable_of_iff (((s.readingsIn host snap).map ImpactReading.inst).Nodup ∧
      (∀ r ∈ s.readingsIn host snap, 0 ≤ r.counters.1) ∧
      Nondecreasing (instanceLedger (s.read ++ s.readingsIn host snap)))
    ⟨fun ⟨h1, h2, h3⟩ => ⟨h1, h2, h3⟩, fun ⟨h1, h2, h3⟩ => ⟨h1, h2, h3⟩⟩

/-- In a snapshot that is watched, a process that was already read is charged from its own previous
tick, or not at all: it has not missed a tick since, or it started before boot; and without a start
time of its own it does not take over another process's baseline. -/
def OwnBaselines (host : KeyHost) (s : ImpactRun) (snap : Snapshot) : Prop :=
  s.tracker.watches snap = true →
    ∀ p ∈ snap.processes, ∀ r ∈ readingOf host p, r.inst ∈ s.read.map ImpactReading.inst →
      (∃ c ∈ s.tracker.prev[p.pid]?, c.startEpochS = p.startEpochS) ∨
        impactBaseline s.tracker.bootEpochS s.tracker.prev p = none

instance (host : KeyHost) (s : ImpactRun) (snap : Snapshot) :
    Decidable (OwnBaselines host s snap) :=
  inferInstanceAs (Decidable (_ → ∀ p ∈ snap.processes, ∀ r ∈ readingOf host p, _))

/-- In a snapshot that is watched, no total is rounded up at the turn of any row. -/
def NotRoundedUp (host : KeyHost) (s : ImpactRun) (snap : Snapshot) : Prop :=
  s.tracker.watches snap = true →
    Machine.Along
      (fun acc p => some (impactRow host s.tracker.bootEpochS s.tracker.prev acc p))
      (ImpactAcc.NotRoundedUp host s.tracker.bootEpochS s.tracker.prev)
      ⟨s.tracker.totals, ∅, false⟩ snap.processes

instance (host : KeyHost) (s : ImpactRun) (snap : Snapshot) :
    Decidable (NotRoundedUp host s snap) :=
  inferInstanceAs (Decidable (_ → Machine.Along _ _ _ _))

end ImpactRun

/-! ### One row -/

theorem readingOf_eq_some {host : KeyHost} {p : ProcessEntry} {r : ImpactReading}
    (h : readingOf host p = some r) :
    ∃ path, completeRow p = some (path, r.counters) ∧ r.key = processRuleKey host path ∧
      r.inst = (p.pid, p.startEpochS) := by
  simp only [readingOf, Option.map_eq_some_iff] at h
  obtain ⟨⟨path, counters⟩, hrow, rfl⟩ := h
  exact ⟨path, hrow, rfl, rfl⟩

theorem impactRow_of_none {host : KeyHost} {p : ProcessEntry} (h : readingOf host p = none)
    (boot : Option ℤ) (prev : OrdMap ℕ PrevCounters) (acc : ImpactAcc) :
    impactRow host boot prev acc p = acc := by
  simp only [readingOf, Option.map_eq_none_iff] at h
  simp [impactRow, h]

/-- What a complete row charges and keeps. -/
theorem impactRow_of_some {host : KeyHost} {p : ProcessEntry} {r : ImpactReading}
    (h : readingOf host p = some r) (boot : Option ℤ) (prev : OrdMap ℕ PrevCounters)
    (acc : ImpactAcc) :
    impactRow host boot prev acc p =
      { (match impactBaseline boot prev p with
          | some base => acc.charge boot r.key base r.counters
          | none => acc) with
        live := acc.live.insert p.pid ⟨p.startEpochS, r.counters.1, r.counters.2⟩ } := by
  obtain ⟨path, hrow, hkey, -⟩ := readingOf_eq_some h
  simp only [impactRow, hrow, hkey]
  cases impactBaseline boot prev p with
  | none => rfl
  | some base =>
    simp only [ImpactAcc.charge]
    split_ifs <;> rfl

/-- The kept counters are the last ones read of their instance. -/
def Kept (prev : OrdMap ℕ PrevCounters) (rs : List ImpactReading) : Prop :=
  ∀ (pid : ℕ) (c : PrevCounters), prev[pid]? = some c → 0 ≤ c.cpuS ∧
    latest (instanceLedger rs) (pid, c.startEpochS) = some (c.cpuS, c.ioBytes)

/-- Nothing read of the row's instance exceeds what the row is charged from. -/
def Fits (boot : Option ℤ) (prev : OrdMap ℕ PrevCounters) (rs : List ImpactReading)
    (p : ProcessEntry) : Prop :=
  ∀ base ∈ impactBaseline boot prev p, 0 ≤ base.1 ∧
    ∀ c, ((p.pid, p.startEpochS), c) ∈ instanceLedger rs → c ≤ base

theorem instanceLedger_append (rs ts : List ImpactReading) :
    instanceLedger (rs ++ ts) = instanceLedger rs ++ instanceLedger ts := List.map_append

theorem Fits.append {boot : Option ℤ} {prev : OrdMap ℕ PrevCounters} {rs : List ImpactReading}
    {p : ProcessEntry} (h : Fits boot prev rs p) {r : ImpactReading}
    (hne : r.inst ≠ (p.pid, p.startEpochS)) : Fits boot prev (rs ++ [r]) p := by
  intro base hbase
  obtain ⟨hnonneg, hle⟩ := h base hbase
  refine ⟨hnonneg, fun c hc => ?_⟩
  rw [instanceLedger_append] at hc
  rcases List.mem_append.mp hc with hc | hc
  · exact hle c hc
  · have hr : ((p.pid, p.startEpochS), c) = (r.inst, r.counters) := by
      simpa [instanceLedger] using hc
    exact absurd (congrArg Prod.fst hr).symm hne

theorem Kept.insert {live : OrdMap ℕ PrevCounters} {rs : List ImpactReading} (h : Kept live rs)
    {pid : ℕ} {start : Option ℤ} {r : ImpactReading} (hinst : r.inst = (pid, start))
    (hnonneg : 0 ≤ r.counters.1) :
    Kept (live.insert pid ⟨start, r.counters.1, r.counters.2⟩) (rs ++ [r]) := by
  intro q c hc
  rw [instanceLedger_append, show instanceLedger [r] = [(r.inst, r.counters)] from rfl, hinst,
    latest_append]
  rw [OrdMap.getElem?_insert] at hc
  by_cases hq : pid = q
  · rw [if_pos hq] at hc
    cases hc
    simp [hq, hnonneg]
  · rw [if_neg hq] at hc
    obtain ⟨h1, h2⟩ := h q c hc
    rw [if_neg fun he => hq (congrArg Prod.fst he)]
    exact ⟨h1, h2⟩

/-- A process that keeps its own baselines fits. -/
theorem fits_of_ownBaselines {boot : Option ℤ} {prev : OrdMap ℕ PrevCounters}
    {rs : List ImpactReading} {p : ProcessEntry} (hkept : Kept prev rs)
    (hmono : Nondecreasing (instanceLedger rs))
    (hown : (p.pid, p.startEpochS) ∈ rs.map ImpactReading.inst →
      (∃ c ∈ prev[p.pid]?, c.startEpochS = p.startEpochS) ∨ impactBaseline boot prev p = none) :
    Fits boot prev rs p := by
  intro base hbase
  constructor
  · -- a baseline is zero or what was kept of some process
    unfold impactBaseline at hbase
    cases hprev : previousOf prev p with
    | none =>
      rw [hprev] at hbase
      simp only [Option.mem_def, Option.ite_none_right_eq_some, Option.some.injEq] at hbase
      rw [← hbase.2]
    | some c =>
      rw [hprev] at hbase
      cases hbase
      exact (hkept p.pid c (Option.filter_eq_some_iff.mp hprev).1).1
  · intro c hc
    have hread : (p.pid, p.startEpochS) ∈ rs.map ImpactReading.inst := by
      simp only [instanceLedger, List.mem_map, Prod.mk.injEq] at hc
      obtain ⟨r, hr, hinst, -⟩ := hc
      exact List.mem_map.mpr ⟨r, hr, hinst⟩
    rcases hown hread with ⟨kept, hk, hstart⟩ | hnone
    · have hprev : previousOf prev p = some kept := by
        rw [previousOf, hk]
        simp [hstart]
      have hb : base = (kept.cpuS, kept.ioBytes) := by
        rw [impactBaseline, hprev] at hbase
        exact (Option.some.inj hbase).symm
      have hlast := (hkept p.pid kept hk).2
      rw [hstart] at hlast
      rw [hb]
      exact hmono.le_latest hc hlast
    · rw [hnone] at hbase
      cases hbase

/-! ### One of the two costs -/

/-- CPU time or I/O bytes: how it is read off a row's counters and off a sample. -/
structure ImpactMeter (α : Type*) [AddCommGroup α] [LinearOrder α] where
  read : ℚ × ℕ → α
  amount : ImpactSample → α
  mono : ∀ c d, c ≤ d → read c ≤ read d
  nonneg : ∀ c, 0 ≤ c.1 → 0 ≤ read c
  amount_fresh : ∀ boot, amount { bootEpochS := boot } = 0
  amount_add : ∀ e base now, e.NotRoundedUp base now →
    amount (e.add base now) ≤ amount e + max (read now - read base) 0

namespace ImpactMeter

variable {α : Type*} [AddCommGroup α] [LinearOrder α] [IsOrderedAddMonoid α] (M : ImpactMeter α)

/-- The readings of each instance under each image. -/
def imageLedger (rs : List ImpactReading) : Ledger (ProcessInstance × Text) α :=
  rs.map fun r => ((r.inst, r.key), M.read r.counters)

/-- What an image has been charged. -/
def charged (totals : OrdMap Text ImpactSample) (k : Text) : α := M.amount (totals[k]?.getD {})

/-- No image has been charged more than the last readings of its instances. -/
def Within (totals : OrdMap Text ImpactSample) (rs : List ImpactReading) : Prop :=
  ∀ k : Text, M.charged totals k ≤ latestSum (M.imageLedger rs) (fun i => i.2 = k)

variable {M}

omit [IsOrderedAddMonoid α] in
theorem imageLedger_append (rs : List ImpactReading) (r : ImpactReading) :
    M.imageLedger (rs ++ [r]) = M.imageLedger rs ++ [((r.inst, r.key), M.read r.counters)] := by
  simp [imageLedger]

/-- The advance from a base that nothing read of the instance exceeds is paid for by the last
reading of the instance under the image. -/
theorem advance_le {rs : List ImpactReading} {r : ImpactReading} {base : ℚ × ℕ}
    (hmono : Nondecreasing (instanceLedger (rs ++ [r]))) (hr : 0 ≤ r.counters.1)
    (hbase : 0 ≤ base.1) (hle : ∀ c, (r.inst, c) ∈ instanceLedger rs → c ≤ base) :
    max (M.read r.counters - M.read base) 0 ≤
      M.read r.counters - (latest (M.imageLedger rs) (r.inst, r.key)).getD 0 := by
  cases hl : latest (M.imageLedger rs) (r.inst, r.key) with
  | none =>
    simp only [Option.getD_none, sub_zero]
    exact max_le (sub_le_self _ (M.nonneg base hbase)) (M.nonneg _ hr)
  | some w =>
    obtain ⟨q, hq, heq⟩ := List.mem_map.mp (mem_of_latest hl)
    simp only [Prod.mk.injEq] at heq
    obtain ⟨⟨hinst, -⟩, rfl⟩ := heq
    have hmem : (r.inst, q.counters) ∈ instanceLedger rs :=
      List.mem_map.mpr ⟨q, hq, by rw [hinst]⟩
    have hnow : q.counters ≤ r.counters := by
      rw [instanceLedger_append] at hmono
      exact (List.pairwise_append.mp hmono).2.2 _ hmem (r.inst, r.counters)
        (List.mem_singleton.mpr rfl) rfl
    simp only [Option.getD_some]
    refine max_le (sub_le_sub_left (M.mono _ _ (hle _ hmem)) _) ?_
    exact sub_nonneg.mpr (M.mono _ _ hnow)

theorem charged_charge_le (acc : ImpactAcc) (boot : Option ℤ) (key : Text) {base now : ℚ × ℕ}
    (hround : (sampleOf boot acc.totals[key]?).NotRoundedUp base now) (k : Text) :
    M.charged (acc.charge boot key base now).totals k ≤
      M.charged acc.totals k + if key = k then max (M.read now - M.read base) 0 else 0 := by
  have hpos : 0 ≤ if key = k then max (M.read now - M.read base) 0 else 0 := by
    split_ifs
    · exact le_max_right _ _
    · exact le_rfl
  unfold ImpactAcc.charge
  split_ifs with hc hk
  · subst hk
    have hfresh : M.amount (sampleOf boot acc.totals[key]?) = M.charged acc.totals key := by
      unfold charged sampleOf
      cases acc.totals[key]? with
      | none => exact (M.amount_fresh _).trans (M.amount_fresh 0).symm
      | some e => rfl
    rw [← hfresh]
    simp only [charged, OrdMap.getElem?_alter, if_true, Option.getD_some]
    exact M.amount_add _ _ _ hround
  · simp [charged, OrdMap.getElem?_alter, hk]
  · exact le_add_of_nonneg_right (le_max_right _ _)
  · exact le_add_of_nonneg_right le_rfl

/-- **One complete row** stays within the readings. -/
theorem Within.row {host : KeyHost} {boot : Option ℤ} {prev : OrdMap ℕ PrevCounters}
    {acc : ImpactAcc} {p : ProcessEntry} {rs : List ImpactReading} {r : ImpactReading}
    (h : M.Within acc.totals rs) (hread : readingOf host p = some r)
    (hmono : Nondecreasing (instanceLedger (rs ++ [r]))) (hr : 0 ≤ r.counters.1)
    (hfits : Fits boot prev rs p) (hround : acc.NotRoundedUp host boot prev p) :
    M.Within (impactRow host boot prev acc p).totals (rs ++ [r]) := by
  obtain ⟨-, -, -, hinst⟩ := readingOf_eq_some hread
  have hadvance : ∀ base : ℚ × ℕ, 0 ≤ base.1 →
      (∀ c, (r.inst, c) ∈ instanceLedger rs → c ≤ base) → ∀ k : Text,
      latestSum (M.imageLedger rs) (fun i => i.2 = k) +
          (if r.key = k then max (M.read r.counters - M.read base) 0 else 0) ≤
        latestSum (M.imageLedger (rs ++ [r])) (fun i => i.2 = k) := by
    intro base hbase hle k
    rw [imageLedger_append]
    exact add_le_latestSum (fun i : ProcessInstance × Text => i.2 = k)
      (advance_le hmono hr hbase hle)
  intro k
  rw [impactRow_of_some hread]
  cases hb : impactBaseline boot prev p with
  | some base =>
    obtain ⟨hbase, hle⟩ := hfits base hb
    rw [← hinst] at hle
    have hcharge := charged_charge_le (M := M) acc boot r.key (hround r hread base hb) k
    exact hcharge.trans ((add_le_add_left (h k) _).trans (hadvance base hbase hle k))
  | none =>
    -- charging nothing is charging from the row's own counters
    have hself := hadvance r.counters hr (fun c hc => by
      rw [instanceLedger_append] at hmono
      exact (List.pairwise_append.mp hmono).2.2 _ hc (r.inst, r.counters)
        (List.mem_singleton.mpr rfl) rfl) k
    simp only [sub_self, max_self, ite_self, add_zero] at hself
    exact (h k).trans hself

/-- **One snapshot** whose rows fit stays within the readings, and keeps their counters. -/
theorem Within.rows {host : KeyHost} {boot : Option ℤ} {prev : OrdMap ℕ PrevCounters}
    (rows : List ProcessEntry) (rs : List ImpactReading) (acc : ImpactAcc)
    (h : M.Within acc.totals rs) (hlive : Kept acc.live rs)
    (hnd : ((rows.filterMap (readingOf host)).map ImpactReading.inst).Nodup)
    (hnonneg : ∀ r ∈ rows.filterMap (readingOf host), 0 ≤ r.counters.1)
    (hmono : Nondecreasing (instanceLedger (rs ++ rows.filterMap (readingOf host))))
    (hfits : ∀ p ∈ rows, ∀ r ∈ readingOf host p, Fits boot prev rs p)
    (hround : Machine.Along (fun acc p => some (impactRow host boot prev acc p))
      (ImpactAcc.NotRoundedUp host boot prev) acc rows) :
    M.Within (rows.foldl (impactRow host boot prev) acc).totals
        (rs ++ rows.filterMap (readingOf host)) ∧
      Kept (rows.foldl (impactRow host boot prev) acc).live
        (rs ++ rows.filterMap (readingOf host)) := by
  induction rows generalizing rs acc with
  | nil => simpa using ⟨h, hlive⟩
  | cons p rows ih =>
    obtain ⟨hfirst, hrest⟩ := hround
    have hlater := hrest _ rfl
    rw [List.foldl_cons]
    cases hread : readingOf host p with
    | none =>
      rw [impactRow_of_none hread] at hlater ⊢
      rw [List.filterMap_cons_none hread] at hnd hnonneg hmono ⊢
      exact ih rs acc h hlive hnd hnonneg hmono
        (fun q hq => hfits q (List.mem_cons_of_mem p hq)) hlater
    | some r =>
      obtain ⟨-, -, -, hinst⟩ := readingOf_eq_some hread
      rw [List.filterMap_cons_some hread] at hnd hnonneg hmono ⊢
      obtain ⟨hnew, hnd⟩ := List.nodup_cons.mp hnd
      have hr := hnonneg r List.mem_cons_self
      have hsplit : rs ++ r :: rows.filterMap (readingOf host) =
          (rs ++ [r]) ++ rows.filterMap (readingOf host) := by simp
      rw [hsplit] at hmono ⊢
      have hone : Nondecreasing (instanceLedger (rs ++ [r])) := by
        rw [instanceLedger_append] at hmono
        exact hmono.of_append
      refine ih (rs ++ [r]) _
        (h.row hread hone hr (hfits p List.mem_cons_self r hread) hfirst) ?_ hnd
        (fun q hq => hnonneg q (List.mem_cons_of_mem r hq)) hmono ?_ hlater
      · rw [impactRow_of_some hread]
        have hkept : Kept
            (acc.live.insert p.pid ⟨p.startEpochS, r.counters.1, r.counters.2⟩) (rs ++ [r]) :=
          hlive.insert hinst hr
        cases impactBaseline boot prev p <;> exact hkept
      · -- the rows still to come are of other instances
        intro q hq t ht
        obtain ⟨-, -, -, hqinst⟩ := readingOf_eq_some ht
        refine (hfits q (List.mem_cons_of_mem p hq) t ht).append fun heq => hnew ?_
        rw [heq, ← hqinst]
        exact List.mem_map_of_mem (List.mem_filterMap.mpr ⟨q, hq, ht⟩)

end ImpactMeter

/-! ### Every run -/

namespace ImpactRun

variable {α : Type*} [AddCommGroup α] [LinearOrder α] [IsOrderedAddMonoid α] {M : ImpactMeter α}
variable {host : KeyHost}

/-- The invariant of a run. -/
structure Sound (M : ImpactMeter α) (s : ImpactRun) : Prop where
  within : M.Within s.tracker.totals s.read
  kept : Kept s.tracker.prev s.read ∨ s.tracker.active = false

/-- **One snapshot keeps the invariant.** -/
theorem sound_step {s s' : ImpactRun} {snap : Snapshot} (h : Sound M s)
    (hc : (Counted host s snap ∧ OwnBaselines host s snap) ∧ NotRoundedUp host s snap)
    (hstep : step host s snap = some s') : Sound M s' := by
  obtain ⟨⟨⟨hnd, hnonneg, hmono⟩, hown⟩, hround⟩ := hc
  simp only [step, Option.some.injEq] at hstep
  subst hstep
  -- a tracker that has finished, or whose window has closed, reads nothing
  cases hactive : s.tracker.active with
  | false =>
    have hnone : s.readingsIn host snap = [] := by
      simp [readingsIn, StartupImpactTracker.watches, hactive]
    rw [hnone, List.append_nil]
    exact ⟨by simpa [StartupImpactTracker.observe, hactive] using h.within,
      Or.inr (by simp [StartupImpactTracker.observe, hactive])⟩
  | true =>
    by_cases hwin : s.tracker.windowS ≤ snap.system.uptimeS
    · have hnone : s.readingsIn host snap = [] := by
        simp [readingsIn, StartupImpactTracker.watches, hwin]
      rw [hnone, List.append_nil]
      exact ⟨by simpa [StartupImpactTracker.observe, hactive, hwin] using h.within,
        Or.inr (by simp [StartupImpactTracker.observe, hactive, hwin])⟩
    · have hwatches : s.tracker.watches snap = true := by
        simp [StartupImpactTracker.watches, hactive, not_le.mp hwin]
      have hreadings : s.readingsIn host snap = snap.processes.filterMap (readingOf host) :=
        if_pos hwatches
      rw [hreadings] at hnd hnonneg hmono ⊢
      -- an active tracker still has its baselines
      have hkept : Kept s.tracker.prev s.read := by
        rcases h.kept with hk | hk
        · exact hk
        · rw [hactive] at hk
          cases hk
      have hfits : ∀ p ∈ snap.processes, ∀ r ∈ readingOf host p,
          Fits s.tracker.bootEpochS s.tracker.prev s.read p := by
        intro p hp r hr
        obtain ⟨-, -, -, hinst⟩ := readingOf_eq_some hr
        have hprefix : Nondecreasing (instanceLedger s.read) := by
          rw [instanceLedger_append] at hmono
          exact hmono.of_append
        refine fits_of_ownBaselines hkept hprefix ?_
        rw [← hinst]
        exact hown hwatches p hp r hr
      obtain ⟨hw, hk⟩ := h.within.rows snap.processes s.read ⟨s.tracker.totals, ∅, false⟩
        (fun pid c hc => by simp at hc) hnd hnonneg hmono hfits (hround hwatches)
      simp only [StartupImpactTracker.observe, hactive, hwin, Bool.not_true, Bool.false_eq_true,
        if_false]
      exact ⟨hw, Or.inl hk⟩

/-- A tracker for one boot, before the first snapshot. -/
def start (uptimeS : ℕ) (bootEpochS : ℤ) : ImpactRun where
  tracker := .new uptimeS bootEpochS

omit [IsOrderedAddMonoid α] in
theorem sound_start (uptimeS : ℕ) (bootEpochS : ℤ) : Sound M (start uptimeS bootEpochS) := by
  refine ⟨fun k => ?_, Or.inl fun pid c hc => ?_⟩
  · have hzero : M.charged (∅ : OrdMap Text ImpactSample) k = 0 := by
      have := M.amount_fresh 0
      simpa [ImpactMeter.charged] using this
    exact hzero.le.trans (by simp [start, ImpactMeter.imageLedger])
  · simp [start, StartupImpactTracker.new] at hc

end ImpactRun

/-- CPU time, in milliseconds. -/
def cpuImpact : ImpactMeter ℚ where
  read c := c.1 * 1000
  amount := ImpactSample.cpuMs
  mono c d h := mul_le_mul_of_nonneg_right h.1 (by norm_num)
  nonneg c h := mul_nonneg h (by norm_num)
  amount_fresh _ := rfl
  amount_add e base now hround := by
    have hmul : max (now.1 - base.1) 0 * 1000 = max (now.1 * 1000 - base.1 * 1000) 0 := by
      rw [max_mul_of_nonneg _ _ (by norm_num : (0 : ℚ) ≤ 1000), sub_mul, zero_mul]
    rw [← hmul]
    exact hround

/-- I/O bytes. -/
def ioImpact : ImpactMeter ℤ where
  read c := c.2
  amount e := e.diskBytes
  mono c d h := by exact_mod_cast h.2
  nonneg c _ := by positivity
  amount_fresh _ := rfl
  amount_add e base now _ := by
    have hsat := saturatingAdd_le e.diskBytes (now.2 - base.2)
    simp only [ImpactSample.add]
    omega

/-- The CPU time and the I/O bytes charged to every image are at most what its instances' last
readings add up to. -/
def ChargedOnce (s : ImpactRun) : Prop :=
  ∀ k : Text, (s.tracker.totals[k]?.getD {}).cpuMs ≤
      latestSum (cpuImpact.imageLedger s.read) (fun i => i.2 = k) ∧
    ((s.tracker.totals[k]?.getD {}).diskBytes : ℤ) ≤
      latestSum (ioImpact.imageLedger s.read) (fun i => i.2 = k)

/-- A host whose paths are keys as they are. -/
def plainHost : KeyHost where
  windows := false
  toLowercase := id

/-- A snapshot within the window: one process started after boot, its CPU seconds as given. -/
def startupTick (cpuS : Option ℚ) : Snapshot where
  processes := [{ pid := 7, name := "app".toList, startEpochS := some 5, cpuTimeS := cpuS,
                  exePath := some "/app".toList }]
  system := { uptimeS := 10 }

end Taskman
