import Taskman.App.Performance.History
import Taskman.Text.Decimal
import Mathlib.Data.List.Forall2
import Mathlib.Order.Bounds.Basic

/-!
# The series of the Performance pages

A page takes the values of its charts out of the points of the window, and the chart places the
value with index `i` at the time of point `i`.  A series is thus aligned when it has one value for
each point, taken from that point.

* `series`, `diskSeries`, `diskActivitySeries`, `netSeries`, `gpuEngineSeries`, `gpuSeries` : the
  series with a value, or a zero, for each point;
* `coreHist`, `coreKern` : the series of the processors, to which a point adds the values it has;
* `coreSeries_getElem?` : **the values of a processor are those of the points that have one**;
* `Aligned` : all series are aligned with the window;
* `aligned_iff` : **they are, exactly if no point has fewer processors than the newest snapshot**.
-/

namespace Taskman

namespace Performance

open Text (digits)

/-! ### The extractors -/

/-- One value of each point. -/
def series (win : List HistoryPoint) (f : HistoryPoint → ℚ) : List ℚ := win.map f

/-- The times at which the chart places the values of a series. -/
def timestamps (win : List HistoryPoint) : List ℕ := win.map HistoryPoint.tMs

/-- One value for each window point, and zero where the disk is absent. -/
def diskSeries (win : List HistoryPoint) (key : Text) (pick : Text × Option ℚ × ℚ × ℚ → ℚ) :
    List ℚ :=
  win.map fun h => (h.disks.find? fun disk => disk.1 == key).elim 0 pick

/-- The activity of a disk; it is unknown at a point without the disk. -/
def diskActivitySeries (win : List HistoryPoint) (key : Text) : List (Option ℚ) :=
  win.map fun h => (h.disks.find? fun disk => disk.1 == key).bind fun disk => disk.2.1

/-- What a network adapter receives or sends. -/
def netSeries (win : List HistoryPoint) (key : Text) (idx : ℕ) : List ℚ :=
  win.map fun h =>
    (h.nets.find? fun net => net.1 == key).elim 0 fun net =>
      if idx = 1 then net.2.1 else net.2.2

/-- Utilization history of one engine type on one adapter. -/
def gpuEngineSeries (win : List HistoryPoint) (key engine : Text) : List ℚ :=
  win.map fun h =>
    ((h.gpuEngines.filter fun e => digits e.1 == key && e.2.1 == engine).map fun e => e.2.2).foldl
      max 0

/-- The values of an adapter. -/
inductive GpuField where
  | util
  | dedicated
  deriving DecidableEq

/-- A value of an adapter at a point. -/
def GpuField.value (field : GpuField) (point : GpuHistoryPoint) : ℚ :=
  match field with
  | .util => point.utilPct
  | .dedicated => binary64.round point.dedicatedUsedBytes

/-- One value of an adapter. -/
def gpuSeries (win : List HistoryPoint) (key : Text) (field : GpuField) : List ℚ :=
  win.map fun h => (h.gpus.find? fun point => digits point.id == key).elim 0 field.value

/-- Each of the lists takes the value at its position, as far as there are lists and values. -/
def pushEach : List (List ℚ) → List ℚ → List (List ℚ)
  | dst :: rest, v :: values => (dst ++ [v]) :: pushEach rest values
  | rest, _ => rest

/-- The loop of the processor page over the window, for one list of the points. -/
def coreSeries (win : List HistoryPoint) (cores : ℕ) (values : HistoryPoint → List ℚ) :
    List (List ℚ) :=
  win.foldl (fun dst h => pushEach dst (values h)) (List.replicate cores [])

/-- The load of each core. -/
def coreHist (win : List HistoryPoint) (cores : ℕ) : List (List ℚ) :=
  coreSeries win cores HistoryPoint.perCore

/-- The load of each core in the kernel. -/
def coreKern (win : List HistoryPoint) (cores : ℕ) : List (List ℚ) :=
  coreSeries win cores HistoryPoint.perCoreKernel

/-! ### What a value is taken from -/

section Taken

variable {ε κ ν : Type*}

/-- The value is picked from an entry with the property, or there is none. -/
def Taken (entries : List ε) (P : ε → Prop) (pick : ε → ν) (absent value : ν) : Prop :=
  (∃ entry ∈ entries, P entry ∧ value = pick entry) ∨
    (∀ entry ∈ entries, ¬ P entry) ∧ value = absent

/-- The first entry with a name is looked up. -/
theorem taken_find? [BEq κ] [LawfulBEq κ] (entries : List ε) (name : ε → κ) (key : κ)
    (pick : ε → ν) (absent : ν) :
    Taken entries (name · = key) pick absent
      ((entries.find? fun entry => name entry == key).elim absent pick) := by
  cases hfind : entries.find? fun entry => name entry == key with
  | none =>
    refine Or.inr ⟨fun entry hentry => ?_, rfl⟩
    simpa using List.find?_eq_none.mp hfind entry hentry
  | some entry =>
    have hname : name entry == key := by simpa using List.find?_some hfind
    exact Or.inl ⟨entry, List.mem_of_find?_eq_some hfind, eq_of_beq hname, rfl⟩

end Taken

/-- A fold of `max` gives the greatest of its elements and the one it starts from. -/
theorem isGreatest_foldl_max (values : List ℚ) (start : ℚ) :
    IsGreatest {v | v = start ∨ v ∈ values} (values.foldl max start) := by
  induction values generalizing start with
  | nil => simp
  | cons first values ih =>
    obtain ⟨hmem, hupper⟩ := ih (max start first)
    rw [List.foldl_cons]
    refine ⟨?_, ?_⟩
    · rcases hmem with hmax | hvalues
      · rcases max_choice start first with h | h
        · exact Or.inl (hmax.trans h)
        · exact Or.inr (List.mem_cons.mpr (Or.inl (hmax.trans h)))
      · exact Or.inr (List.mem_cons_of_mem first hvalues)
    · have hstart : max start first ≤ values.foldl max (max start first) := hupper (Or.inl rfl)
      rintro v (rfl | hv)
      · exact (le_max_left _ _).trans hstart
      · rcases List.mem_cons.mp hv with rfl | hv
        · exact (le_max_right _ _).trans hstart
        · exact hupper (Or.inr hv)

/-! ### The series of a processor -/

theorem pushEach_getElem? (dst : List (List ℚ)) (values : List ℚ) (c : ℕ) :
    (pushEach dst values)[c]? = dst[c]?.map fun samples => samples ++ values[c]?.toList := by
  induction dst generalizing values c with
  | nil => cases values <;> simp [pushEach]
  | cons first dst ih =>
    cases values with
    | nil => simp [pushEach]
    | cons v values =>
      cases c with
      | zero => simp [pushEach]
      | succ c => simp [pushEach, ih]

/-- **The values of a processor are those of the points that have one.** -/
theorem coreSeries_getElem? (win : List HistoryPoint) {cores c : ℕ} (hc : c < cores)
    (values : HistoryPoint → List ℚ) :
    (coreSeries win cores values)[c]? = some (win.filterMap fun h => (values h)[c]?) := by
  suffices hgen : ∀ dst : List (List ℚ),
      (win.foldl (fun dst h => pushEach dst (values h)) dst)[c]? =
        dst[c]?.map fun samples => samples ++ win.filterMap fun h => (values h)[c]? by
    simp [coreSeries, hgen, hc]
  induction win with
  | nil => simp
  | cons h win ih =>
    intro dst
    rw [List.foldl_cons, ih, pushEach_getElem?, Option.map_map, List.filterMap_cons]
    congr 1
    funext samples
    cases hv : (values h)[c]? <;> simp

/-- A series with a value for each point that has one is aligned exactly if all have one. -/
theorem forall₂_filterMap_iff {α β : Type*} (f : α → Option β) (l : List α) :
    List.Forall₂ (fun a b => ∀ v ∈ f a, b = v) l (l.filterMap f) ↔ ∀ a ∈ l, (f a).isSome := by
  constructor
  · intro h
    have hlen : (l.filterMap f).length = l.length := h.length_eq.symm
    exact List.filterMap_length_eq_length.mp hlen
  · intro h
    induction l with
    | nil => exact List.Forall₂.nil
    | cons a l ih =>
      obtain ⟨ha, hl⟩ := List.forall_mem_cons.mp h
      obtain ⟨v, hv⟩ := Option.isSome_iff_exists.mp ha
      rw [List.filterMap_cons_some hv]
      refine List.Forall₂.cons (fun v' hv' => ?_) (ih hl)
      exact Option.some.inj (hv.symm.trans hv')

/-! ### Alignment -/

/-- The series of processors have for each of them one value for each window point, taken from
there. -/
def CoresAligned (win : List HistoryPoint) (cores : ℕ) (built : List (List ℚ))
    (values : HistoryPoint → List ℚ) : Prop :=
  ∀ c < cores, ∃ samples ∈ built[c]?,
    List.Forall₂ (fun h value => ∀ v ∈ (values h)[c]?, value = v) win samples

/-- Every series, and the times it is plotted at, has one value for each window point, taken from
there. -/
structure Aligned (win : List HistoryPoint) (cores : ℕ) : Prop where
  stamps : List.Forall₂ (fun h tMs => tMs = h.tMs) win (timestamps win)
  total : ∀ f, List.Forall₂ (fun h value => value = f h) win (series win f)
  disk : ∀ key pick, List.Forall₂
    (fun h => Taken h.disks (·.1 = key) pick 0) win (diskSeries win key pick)
  diskActivity : ∀ key, List.Forall₂
    (fun h => Taken h.disks (·.1 = key) (·.2.1) none) win (diskActivitySeries win key)
  net : ∀ key idx, List.Forall₂
    (fun h => Taken h.nets (·.1 = key) (fun net => if idx = 1 then net.2.1 else net.2.2) 0)
    win (netSeries win key idx)
  gpu : ∀ key field, List.Forall₂
    (fun h => Taken h.gpus (digits ·.id = key) field.value 0) win (gpuSeries win key field)
  engine : ∀ key engine, List.Forall₂
    (fun h => IsGreatest
      {v | v = 0 ∨ ∃ e ∈ h.gpuEngines, digits e.1 = key ∧ e.2.1 = engine ∧ e.2.2 = v})
    win (gpuEngineSeries win key engine)
  core : CoresAligned win cores (coreHist win cores) HistoryPoint.perCore
  coreKernel : CoresAligned win cores (coreKern win cores) HistoryPoint.perCoreKernel

theorem forall₂_map {α β : Type*} {R : α → β → Prop} {f : α → β} (h : ∀ a, R a (f a))
    (l : List α) : List.Forall₂ R l (l.map f) := by
  rw [List.forall₂_map_right_iff, List.forall₂_same]
  exact fun a _ => h a

/-- A point that has fewer processors than there are series leaves some of them short. -/
theorem coresAligned_iff (win : List HistoryPoint) (cores : ℕ) (values : HistoryPoint → List ℚ) :
    CoresAligned win cores (coreSeries win cores values) values ↔
      ∀ h ∈ win, cores ≤ (values h).length := by
  have hcore : ∀ c < cores,
      ((∃ samples ∈ (coreSeries win cores values)[c]?,
          List.Forall₂ (fun h value => ∀ v ∈ (values h)[c]?, value = v) win samples) ↔
        ∀ h ∈ win, c < (values h).length) := by
    intro c hc
    simp only [coreSeries_getElem? win hc values, Option.mem_some_iff, exists_eq_left',
      forall₂_filterMap_iff, isSome_getElem?]
  constructor
  · intro haligned h hh
    by_contra hshort
    exact absurd ((hcore _ (not_le.mp hshort)).mp (haligned _ (not_le.mp hshort)) h hh)
      (lt_irrefl _)
  · intro hall c hc
    exact (hcore c hc).mpr fun h hh => hc.trans_le (hall h hh)

/-- **All series are aligned with the window, exactly if no point of it has fewer processors than
there are series.** -/
theorem aligned_iff (win : List HistoryPoint) (cores : ℕ) :
    Aligned win cores ↔
      ∀ h ∈ win, cores ≤ h.perCore.length ∧ cores ≤ h.perCoreKernel.length := by
  constructor
  · intro haligned h hh
    exact ⟨(coresAligned_iff win cores _).mp haligned.core h hh,
      (coresAligned_iff win cores _).mp haligned.coreKernel h hh⟩
  · intro hcores
    refine
      { stamps := forall₂_map (R := fun h tMs => tMs = h.tMs) (fun _ => rfl) win
        total := fun f => forall₂_map (R := fun h value => value = f h) (fun _ => rfl) win
        disk := fun key pick => forall₂_map (fun h => ?disk) win
        diskActivity := fun key => forall₂_map (fun h => ?activity) win
        net := fun key idx => forall₂_map (fun h => ?net) win
        gpu := fun key field => forall₂_map (fun h => ?gpu) win
        engine := fun key engine => forall₂_map (fun h => ?engine) win
        core := (coresAligned_iff win cores _).mpr fun h hh => (hcores h hh).1
        coreKernel := (coresAligned_iff win cores _).mpr fun h hh => (hcores h hh).2 }
    case disk => exact taken_find? h.disks (·.1) key pick 0
    case activity =>
      have htaken := taken_find? h.disks (·.1) key (·.2.1) none
      cases hfind : h.disks.find? fun disk => disk.1 == key with
      | none => rwa [hfind] at htaken
      | some disk => rwa [hfind] at htaken
    case net => exact taken_find? h.nets (·.1) key _ 0
    case gpu => exact taken_find? h.gpus (digits ·.id) key field.value 0
    case engine =>
      have hgreatest := isGreatest_foldl_max
        ((h.gpuEngines.filter fun e => digits e.1 == key && e.2.1 == engine).map fun e => e.2.2) 0
      simpa [and_assoc] using hgreatest

/-- The values of two ticks with two processors, and of one between them that has only the first:
the second processor's series is short, and what it measured last is placed at the time before. -/
theorem gap_shifts_series :
    let point := fun (tMs : ℕ) (perCore : List ℚ) =>
      { emptyTick tMs with perCore, perCoreKernel := [0, 0] }
    let win := [point 0 [10, 20], point 500 [30], point 1000 [50, 60]]
    coreHist win 2 = [[10, 30, 50], [20, 60]] ∧ ¬ Aligned win 2 := by
  refine ⟨by decide +kernel, fun haligned => ?_⟩
  obtain ⟨samples, hsamples, haligned⟩ := haligned.core 1 (by decide)
  obtain rfl : [20, 60] = samples := Option.some.inj
    (Eq.trans (by decide +kernel) (Option.mem_def.mp hsamples))
  exact absurd haligned.length_eq (by decide)

end Performance

end Taskman
