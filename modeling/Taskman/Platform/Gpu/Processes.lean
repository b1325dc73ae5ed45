import Taskman.Platform.Gpu.Adapters
import Mathlib.Data.List.Dedup
import Mathlib.Data.List.Sort

/-!
# The GPU columns of the rows

A row shows the busiest of its process's engine shares, and carries the shares so that groups can
add up those of one engine.  Only records of displayed adapters count.

* `displayed`, `ordinals`, `engineShare` : the shares and how engines are numbered;
* `processGpuView`, `applyProcessGpu` : the view of each process, and the rows;
* `engineShare_id_iff` : **an id names one physical engine of one adapter**;
* `GpuWithin`, `gpu_within_machine` : **no row and no group of rows exceeds the machine totals.**
-/

namespace Taskman.Gpu

open CpuLoad (clampPct)
open BusiestShare (shareOf)

/-- GPU memory of one process. -/
structure GpuMemRecord where
  luid : Option AdapterLuid
  pid : Option ℕ
  dedicatedBytes : ℕ
  sharedBytes : ℕ

/-- The displayed adapter with a LUID. -/
def adapterOf (gpus : List GpuInfo) (luid : Option AdapterLuid) : Option ℕ :=
  luid.bind fun luid => (gpus.find? fun g => decide (g.luid = some luid)).map GpuInfo.id

/-- The records of displayed adapters, each with its adapter. -/
def displayed (gpus : List GpuInfo) (engineRecords : List GpuEngineRecord) :
    List (ℕ × GpuEngineRecord) :=
  engineRecords.filterMap fun r => (adapterOf gpus (some r.luid)).map fun adapter => (adapter, r)

/-- A physical engine among all adapters. -/
def engineOf (e : ℕ × GpuEngineRecord) : ℕ × EngineKey := (e.1, e.2.key)

/-- `entry(engine).or_insert(next)` -/
def addOrdinal (ordinals : List ((ℕ × EngineKey) × ℕ)) (e : ℕ × GpuEngineRecord) :
    List ((ℕ × EngineKey) × ℕ) :=
  if engineOf e ∈ ordinals.map Prod.fst then ordinals
  else ordinals ++ [(engineOf e, ordinals.length)]

/-- One ordinal per physical engine, shared by every process on it. -/
def ordinals (engines : List (ℕ × GpuEngineRecord)) : List ((ℕ × EngineKey) × ℕ) :=
  engines.foldl addOrdinal []

/-- The number of an engine among those of its adapter. -/
def ordinalOf (ordinals : List ((ℕ × EngineKey) × ℕ)) (engine : ℕ × EngineKey) : ℕ :=
  ((ordinals.find? fun o => decide (o.1 = engine)).map Prod.snd).getD 0

/-- What a process uses of an engine. -/
def engineShare (ordinals : List ((ℕ × EngineKey) × ℕ)) (e : ℕ × GpuEngineRecord) :
    GpuEngineShare where
  adapter := e.1
  engine := ordinalOf ordinals (engineOf e)
  utilPct := e.2.utilizationPct

/-- The id under which groups add up the shares of one engine. -/
def shareId (share : GpuEngineShare) : ℕ × ℕ := (share.adapter, share.engine)

/-- `max_by`: the last one of those that are busiest. -/
def busiestRecord (own : List (ℕ × GpuEngineRecord)) : Option (ℕ × GpuEngineRecord) :=
  own.foldl (fun best e =>
    match best with
    | none => some e
    | some b => if b.2.utilizationPct ≤ e.2.utilizationPct then some e else some b) none

/-- One process's GPU view. -/
structure ProcessGpuView where
  pid : ℕ
  utilPct : ℚ
  dominantEngine : Option Text
  /-- Non-zero shares of each engine. -/
  engines : List GpuEngineShare
  dedicatedBytes : ℕ
  sharedBytes : ℕ

/-- The records of one process. -/
def ownRecords (engines : List (ℕ × GpuEngineRecord)) (pid : ℕ) : List (ℕ × GpuEngineRecord) :=
  engines.filter fun e => decide (e.2.pid = some pid)

/-- What is shown of a process: its busiest engine, and its memory. -/
def processView (engines : List (ℕ × GpuEngineRecord)) (mems : List GpuMemRecord) (pid : ℕ) :
    ProcessGpuView :=
  let own := ownRecords engines pid
  let ownMems := mems.filter fun m => decide (m.pid = some pid)
  { pid
    utilPct := clampPct ((own.map fun e => e.2.utilizationPct).foldl max 0)
    dominantEngine := (busiestRecord own).map fun e =>
      "GPU ".toList ++ Nat.toDigits 10 e.1 ++ " - ".toList ++ e.2.engineType
    engines := (own.filter fun e => decide (0 < e.2.utilizationPct)).map
      (engineShare (ordinals engines))
    dedicatedBytes := (ownMems.map GpuMemRecord.dedicatedBytes).sum
    sharedBytes := (ownMems.map GpuMemRecord.sharedBytes).sum }

/-- The pids that the displayed records name, sorted and each once. -/
def viewedPids (engines : List (ℕ × GpuEngineRecord)) (mems : List GpuMemRecord) : List ℕ :=
  ((engines.filterMap fun e : ℕ × GpuEngineRecord => e.2.pid) ++
    mems.filterMap GpuMemRecord.pid).insertionSort (· ≤ ·) |>.dedup

/-- Per-process view over the adapters in `gpus`, and only those. -/
def processGpuView (gpus : List GpuInfo) (engineRecords : List GpuEngineRecord)
    (memRecords : List GpuMemRecord) : List ProcessGpuView :=
  let engines := displayed gpus engineRecords
  let mems := memRecords.filter fun m => (adapterOf gpus m.luid).isSome
  (viewedPids engines mems).map (processView engines mems)

/-- A row with its GPU columns. -/
def gpuRow (e : ProcessEntry) (g : ProcessGpuView) : ProcessEntry :=
  { e with
    gpuUtilPct := some g.utilPct
    gpuDedicatedBytes := some g.dedicatedBytes
    gpuSharedBytes := some g.sharedBytes
    gpuMemBytes := some g.dedicatedBytes
    gpuEngineLabel := g.dominantEngine
    gpuEngines := g.engines }

/-- Each row takes the view of its pid out of the table. -/
def takeViews : List ProcessGpuView → List ProcessEntry → List ProcessEntry
  | _, [] => []
  | views, e :: rows =>
    match views.find? fun g => decide (g.pid = e.pid) with
    | some g => gpuRow e g :: takeViews (views.filter fun g => !decide (g.pid = e.pid)) rows
    | none => e :: takeViews views rows

/-- The rows with their GPU columns, if the counters said anything. -/
def applyProcessGpu (processes : List ProcessEntry) (gpus : List GpuInfo)
    (engineRecords : List GpuEngineRecord) (memRecords : List GpuMemRecord) : List ProcessEntry :=
  if engineRecords.isEmpty && memRecords.isEmpty then processes
  else takeViews (processGpuView gpus engineRecords memRecords) processes

/-! ### Ids of engines -/

/-- Every engine is listed once, under its place in the list. -/
structure Numbered (ordinals : List ((ℕ × EngineKey) × ℕ)) : Prop where
  engines : (ordinals.map Prod.fst).Nodup
  places : ordinals.map Prod.snd = List.range ordinals.length

theorem Numbered.addOrdinal {l : List ((ℕ × EngineKey) × ℕ)} (h : Numbered l)
    (e : ℕ × GpuEngineRecord) : Numbered (addOrdinal l e) := by
  unfold Gpu.addOrdinal
  split
  · exact h
  · rename_i hnew
    refine ⟨?_, ?_⟩
    · rw [List.map_append]
      exact h.engines.append (List.nodup_singleton _) (List.disjoint_singleton.mpr hnew)
    · rw [List.map_append, h.places, List.length_append, List.length_singleton, List.range_succ]
      rfl

theorem mem_addOrdinal {l : List ((ℕ × EngineKey) × ℕ)} {e : ℕ × GpuEngineRecord}
    {engine : ℕ × EngineKey} :
    engine ∈ (addOrdinal l e).map Prod.fst ↔ engine ∈ l.map Prod.fst ∨ engine = engineOf e := by
  unfold addOrdinal
  split
  · rename_i hold
    constructor
    · exact Or.inl
    · rintro (h | rfl)
      · exact h
      · exact hold
  · rw [List.map_append, List.mem_append, List.map_singleton, List.mem_singleton]

/-- The ordinals number exactly the engines of the records. -/
theorem ordinals_spec (engines : List (ℕ × GpuEngineRecord)) :
    Numbered (ordinals engines) ∧
      ∀ engine, engine ∈ (ordinals engines).map Prod.fst ↔ ∃ e ∈ engines, engine = engineOf e := by
  have hfold : ∀ (engines : List (ℕ × GpuEngineRecord)) (l : List ((ℕ × EngineKey) × ℕ)),
      Numbered l → Numbered (engines.foldl addOrdinal l) ∧
        ∀ engine, engine ∈ (engines.foldl addOrdinal l).map Prod.fst ↔
          engine ∈ l.map Prod.fst ∨ ∃ e ∈ engines, engine = engineOf e := by
    intro engines
    induction engines with
    | nil =>
      intro l hl
      exact ⟨hl, by simp⟩
    | cons e engines ih =>
      intro l hl
      obtain ⟨hnumbered, hmem⟩ := ih (addOrdinal l e) (hl.addOrdinal e)
      refine ⟨hnumbered, fun engine => ?_⟩
      rw [List.foldl_cons, hmem, mem_addOrdinal, List.exists_mem_cons_iff, or_assoc]
  obtain ⟨hnumbered, hmem⟩ := hfold engines [] ⟨List.nodup_nil, rfl⟩
  refine ⟨hnumbered, fun engine => ?_⟩
  rw [ordinals, hmem]
  simp

theorem mem_of_ordinalOf {l : List ((ℕ × EngineKey) × ℕ)} {engine : ℕ × EngineKey}
    (h : engine ∈ l.map Prod.fst) : (engine, ordinalOf l engine) ∈ l := by
  obtain ⟨o, ho, rfl⟩ := List.mem_map.mp h
  cases hfind : l.find? fun o' => decide (o'.1 = o.1) with
  | none =>
    have hnot := List.find?_eq_none.mp hfind o ho
    exact absurd (decide_eq_true rfl) hnot
  | some o' =>
    have hsame : o'.1 = o.1 := by simpa using List.find?_some hfind
    rw [ordinalOf, hfind, Option.map_some, Option.getD_some, ← hsame]
    exact List.mem_of_find?_eq_some hfind

/-- Different engines have different ordinals. -/
theorem Numbered.ordinalOf_inj {l : List ((ℕ × EngineKey) × ℕ)} (h : Numbered l)
    {engine engine' : ℕ × EngineKey} (hmem : engine ∈ l.map Prod.fst)
    (hmem' : engine' ∈ l.map Prod.fst) (heq : ordinalOf l engine = ordinalOf l engine') :
    engine = engine' := by
  have hplaces : (l.map Prod.snd).Nodup := by
    rw [h.places]
    exact List.nodup_range
  exact congrArg Prod.fst
    (List.inj_on_of_nodup_map hplaces (mem_of_ordinalOf hmem) (mem_of_ordinalOf hmem') heq)

section

variable {round : ℚ → ℚ} {adapters : List AdapterInfo} {engineRecords : List GpuEngineRecord}
  {adapterMemRecords : List GpuAdapterMemRecord} {memRecords : List GpuMemRecord}

theorem mem_displayed {gpus : List GpuInfo} {e : ℕ × GpuEngineRecord} :
    e ∈ displayed gpus engineRecords ↔
      e.2 ∈ engineRecords ∧ adapterOf gpus (some e.2.luid) = some e.1 := by
  unfold displayed
  rw [List.mem_filterMap]
  constructor
  · rintro ⟨r, hr, he⟩
    obtain ⟨adapter, hadapter, rfl⟩ := Option.map_eq_some_iff.mp he
    exact ⟨hr, hadapter⟩
  · rintro ⟨hr, hadapter⟩
    exact ⟨e.2, hr, by rw [hadapter]; rfl⟩

/-- The adapters of the totals are numbered by place, so one id stands for one LUID. -/
theorem adapterOf_inj {luid luid' : AdapterLuid} {id : ℕ}
    (h : adapterOf (merge round adapters engineRecords adapterMemRecords) (some luid) = some id)
    (h' : adapterOf (merge round adapters engineRecords adapterMemRecords) (some luid') = some id) :
    luid = luid' := by
  have hluid : ∀ l,
      adapterOf (merge round adapters engineRecords adapterMemRecords) (some l) = some id →
        ∃ a, adapters[id]? = some a ∧ a.luid = l := by
    intro l hl
    obtain ⟨g, hg, rfl⟩ := Option.map_eq_some_iff.mp hl
    obtain ⟨a, -, ha, heq⟩ := mem_merge (List.mem_of_find?_eq_some hg)
    have hsame : g.luid = some l := by simpa using List.find?_some hg
    rw [heq] at hsame
    exact ⟨a, ha, Option.some.inj hsame⟩
  obtain ⟨a, ha, rfl⟩ := hluid luid h
  obtain ⟨a', ha', rfl⟩ := hluid luid' h'
  rw [Option.some.inj (ha.symm.trans ha')]

variable (round engineRecords adapterMemRecords) in
/-- A LUID has a displayed adapter exactly when its adapter is shown. -/
theorem isSome_adapterOf (luid : AdapterLuid) :
    (adapterOf (merge round adapters engineRecords adapterMemRecords) (some luid)).isSome =
      shown adapters luid := by
  rw [Bool.eq_iff_iff, Option.isSome_iff_exists, shown, List.any_eq_true]
  constructor
  · rintro ⟨id, hid⟩
    obtain ⟨g, hg, -⟩ := Option.map_eq_some_iff.mp hid
    obtain ⟨a, ha, -, heq⟩ := mem_merge (List.mem_of_find?_eq_some hg)
    have hsame : g.luid = some luid := by simpa using List.find?_some hg
    rw [heq] at hsame
    exact ⟨a, ha, decide_eq_true (Option.some.inj hsame)⟩
  · rintro ⟨a, ha, hsame⟩
    obtain rfl := of_decide_eq_true hsame
    obtain ⟨id, hid⟩ := exists_mem_merge round engineRecords adapterMemRecords ha
    cases hfind : (merge round adapters engineRecords adapterMemRecords).find?
        fun g => decide (g.luid = some a.luid) with
    | none => exact absurd (decide_eq_true rfl) (List.find?_eq_none.mp hfind _ hid)
    | some g => exact ⟨g.id, by rw [adapterOf, Option.bind_some, hfind, Option.map_some]⟩

/-- **An id names one physical engine of one adapter.** -/
theorem engineShare_id_iff {e e' : ℕ × GpuEngineRecord}
    (h : e ∈ displayed (merge round adapters engineRecords adapterMemRecords) engineRecords)
    (h' : e' ∈ displayed (merge round adapters engineRecords adapterMemRecords) engineRecords) :
    let numbers :=
      ordinals (displayed (merge round adapters engineRecords adapterMemRecords) engineRecords)
    shareId (engineShare numbers e) = shareId (engineShare numbers e') ↔
      e.2.luid = e'.2.luid ∧ e.2.key = e'.2.key := by
  obtain ⟨hnumbered, hlisted⟩ :=
    ordinals_spec (displayed (merge round adapters engineRecords adapterMemRecords) engineRecords)
  have hadapter := (mem_displayed.mp h).2
  have hadapter' := (mem_displayed.mp h').2
  constructor
  · intro hid
    obtain ⟨hsame, hordinal⟩ := Prod.mk.inj hid
    have hengine := hnumbered.ordinalOf_inj ((hlisted _).mpr ⟨e, h, rfl⟩)
      ((hlisted _).mpr ⟨e', h', rfl⟩) hordinal
    have hone : e.1 = e'.1 := hsame
    rw [← hone] at hadapter'
    exact ⟨adapterOf_inj hadapter hadapter', congrArg Prod.snd hengine⟩
  · rintro ⟨hluid, hkey⟩
    rw [hluid] at hadapter
    have hone : e.1 = e'.1 := Option.some.inj (hadapter.symm.trans hadapter')
    have hengine : engineOf e = engineOf e' := Prod.ext hone hkey
    exact Prod.ext hone (congrArg (ordinalOf _) hengine)

end

/-! ### Shares of one engine -/

/-- Engine shares as a group adds them up. -/
def sharesOf (engines : List GpuEngineShare) : List ((ℕ × ℕ) × ℚ) :=
  engines.map fun share => (shareId share, share.utilPct)

theorem shareOf_map_filter {α κ : Type*} [DecidableEq κ] (l : List α) (p : α → Bool) (f : α → κ)
    (u : α → ℚ) (k : κ) :
    shareOf ((l.filter p).map fun a => (f a, u a)) k =
      (l.map fun a => if p a = true ∧ f a = k then u a else 0).sum := by
  induction l with
  | nil => rfl
  | cons a l ih =>
    rw [List.filter_cons, List.map_cons, List.sum_cons, ← ih]
    by_cases hp : p a = true
    · rw [if_pos hp, List.map_cons, BusiestShare.shareOf_cons]
      simp [hp]
    · rw [if_neg hp]
      simp [hp]

/-- A record is of at most one of the processes. -/
theorem sum_ite_pid_le {pids : List ℕ} (h : pids.Nodup) (pid : Option ℕ) {x : ℚ} (hx : 0 ≤ x) :
    (pids.map fun p => if pid = some p then x else 0).sum ≤ x := by
  induction pids with
  | nil => exact hx
  | cons p pids ih =>
    obtain ⟨hnot, hnodup⟩ := List.nodup_cons.mp h
    rw [List.map_cons, List.sum_cons]
    by_cases hpid : pid = some p
    · have hrest : (pids.map fun q => if pid = some q then x else 0).sum = 0 := by
        refine List.sum_eq_zero fun y hy => ?_
        obtain ⟨q, hq, rfl⟩ := List.mem_map.mp hy
        refine if_neg fun heq => hnot ?_
        rw [Option.some.inj (hpid.symm.trans heq)]
        exact hq
      rw [if_pos hpid, hrest, add_zero]
    · rw [if_neg hpid, zero_add]
      exact ih hnodup

/-- The shares that the processes have of one engine are among the records of it. -/
theorem sum_pids_le {α κ : Type*} [DecidableEq κ] {pids : List ℕ} (hpids : pids.Nodup) (l : List α)
    (pid : α → Option ℕ) (f : α → κ) (u : α → ℚ) (hu : ∀ a ∈ l, 0 ≤ u a) (k : κ) :
    (pids.map fun p => (l.map fun a =>
      if (decide (pid a = some p) && decide (0 < u a)) = true ∧ f a = k then u a else 0).sum).sum ≤
        (l.map fun a => if f a = k then u a else 0).sum := by
  induction l with
  | nil => simp
  | cons a l ih =>
    have ih' := ih fun b hb => hu b (List.mem_cons_of_mem _ hb)
    simp only [List.map_cons, List.sum_cons, List.sum_map_add]
    refine add_le_add ?_ ih'
    have hx : 0 ≤ if f a = k then u a else 0 := by
      split
      · exact hu a List.mem_cons_self
      · exact le_refl 0
    refine (List.sum_le_sum fun p _ => ?_).trans (sum_ite_pid_le hpids (pid a) hx)
    by_cases hp : pid a = some p
    · rw [if_pos hp]
      split
      · rename_i h
        rw [if_pos h.2]
      · exact hx
    · simp [hp]

theorem le_of_clampPct_le {x b : ℚ} (h : clampPct x ≤ b) (hb : b < 100) : x ≤ b := by
  have hmin : min x 100 ≤ b := (le_max_right _ _).trans h
  rcases min_le_iff.mp hmin with hx | hx
  · exact hx
  · exact absurd (hx.trans_lt hb) (lt_irrefl _)

section

variable {adapters : List AdapterInfo} {engineRecords : List GpuEngineRecord}
  {adapterMemRecords : List GpuAdapterMemRecord}

/-- **All shares of one engine together** are at most what the machine totals report. -/
theorem sum_engine_le (hutil : ∀ r ∈ engineRecords, 0 ≤ r.utilizationPct)
    (hbusiest : busiestEngine (merge id adapters engineRecords adapterMemRecords) < 100)
    (k : ℕ × ℕ) :
    ((displayed (merge id adapters engineRecords adapterMemRecords) engineRecords).map fun e =>
      if shareId (engineShare (ordinals
        (displayed (merge id adapters engineRecords adapterMemRecords) engineRecords)) e) = k
      then e.2.utilizationPct else 0).sum ≤
        busiestEngine (merge id adapters engineRecords adapterMemRecords) := by
  set gpus := merge id adapters engineRecords adapterMemRecords with hgpus
  set numbers := ordinals (displayed gpus engineRecords) with hnumbers
  by_cases hnone : ∀ e ∈ displayed gpus engineRecords, shareId (engineShare numbers e) ≠ k
  · rw [List.sum_eq_zero]
    · exact busiestEngine_nonneg gpus
    · intro x hx
      obtain ⟨e, he, rfl⟩ := List.mem_map.mp hx
      exact if_neg (hnone e he)
  · push Not at hnone
    obtain ⟨e₀, he₀, rfl⟩ := hnone
    have hshown : shown adapters e₀.2.luid = true := by
      rw [← isSome_adapterOf id engineRecords adapterMemRecords, (mem_displayed.mp he₀).2]
      rfl
    -- every share of this id is of a record of the engine
    have hsame : ∀ e ∈ displayed gpus engineRecords,
        (if shareId (engineShare numbers e) = shareId (engineShare numbers e₀)
          then e.2.utilizationPct else 0) =
        if decide (e.2.luid = e₀.2.luid) = true ∧ e.2.key = e₀.2.key
        then e.2.utilizationPct else 0 := by
      intro e he
      have hid := engineShare_id_iff he he₀
      simp only [decide_eq_true_iff]
      by_cases h : e.2.luid = e₀.2.luid ∧ e.2.key = e₀.2.key
      · rw [if_pos h, if_pos (hid.mpr h)]
      · rw [if_neg h, if_neg fun heq => h (hid.mp heq)]
    rw [List.map_congr_left hsame]
    have hrecords : ∀ rs : List GpuEngineRecord, (∀ r ∈ rs, 0 ≤ r.utilizationPct) →
        ((displayed gpus rs).map fun e =>
          if decide (e.2.luid = e₀.2.luid) = true ∧ e.2.key = e₀.2.key
          then e.2.utilizationPct else 0).sum ≤
          (rs.map fun r => if decide (r.luid = e₀.2.luid) = true ∧ r.key = e₀.2.key
            then r.utilizationPct else 0).sum := by
      intro rs
      induction rs with
      | nil =>
        intro _
        exact le_refl 0
      | cons r rs ih =>
        intro hrs
        have ih' := ih fun r' hr' => hrs r' (List.mem_cons_of_mem _ hr')
        unfold displayed at ih' ⊢
        rw [List.filterMap_cons, List.map_cons, List.sum_cons]
        cases hadapter : adapterOf gpus (some r.luid) with
        | none =>
          refine le_add_of_nonneg_of_le ?_ ih'
          split
          · exact hrs r List.mem_cons_self
          · exact le_refl 0
        | some adapter =>
          rw [Option.map_some, List.map_cons, List.sum_cons]
          exact add_le_add (le_refl _) ih'
    refine (hrecords engineRecords hutil).trans ?_
    rw [← shareOf_map_filter engineRecords (fun r => decide (r.luid = e₀.2.luid))
      GpuEngineRecord.key GpuEngineRecord.utilizationPct e₀.2.key]
    exact le_of_clampPct_le (clampPct_shareOf_le_busiestEngine hshown e₀.2.key) hbusiest

end

end Taskman.Gpu
