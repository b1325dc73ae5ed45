import Taskman.Numeric.Rounding
import Taskman.Platform.Gpu.Processes

/-!
# GPU rows against the machine totals

The rows and the machine totals are two folds over the same records.  They agree on what one engine
is, so the shares of any group of rows on an engine are part of what the totals add up for it.

* `processView_busiest` : a row's utilization is its busiest share;
* `pct_singleton` : the load of a group of one is the row's own;
* `sum_takeViews_le` : the rows show no more than the views;
* `RowsBusiest` : **each process shows its busiest share**;
* `GroupsWithin`, `gpu_within_machine` : **in exact arithmetic no group of rows exceeds the machine
  totals**;
* `group_over_rounded_machine` : the `f32` sums of one engine depend on the order of the processes.
-/

namespace Taskman.Gpu

open CpuLoad (clampPct)
open BusiestShare (shareOf)

theorem clampPct_of_mem {x : ℚ} (h0 : 0 ≤ x) (h100 : x ≤ 100) : clampPct x = x := by
  rw [clampPct, min_eq_left h100, max_eq_right h0]

/-! ### One view -/

section

variable {engines : List (ℕ × GpuEngineRecord)}

/-- The shares of a view are those of its process that are not zero. -/
theorem engines_processView (mems : List GpuMemRecord) (pid : ℕ) :
    (processView engines mems pid).engines =
      (engines.filter fun e => decide (e.2.pid = some pid) && decide (0 < e.2.utilizationPct)).map
        (engineShare (ordinals engines)) := by
  unfold processView ownRecords
  dsimp only
  rw [List.filter_filter]
  congr 1
  refine List.filter_congr fun e _ => ?_
  rw [Bool.and_comm]

theorem pos_of_mem_engines {mems : List GpuMemRecord} {pid : ℕ} {share : GpuEngineShare}
    (h : share ∈ (processView engines mems pid).engines) : 0 < share.utilPct := by
  rw [engines_processView] at h
  obtain ⟨e, he, rfl⟩ := List.mem_map.mp h
  exact of_decide_eq_true (Bool.and_eq_true_iff.mp (List.mem_filter.mp he).2).2

/-- A view's utilization is the busiest of the records of its process. -/
theorem utilPct_processView
    (hutil : ∀ e ∈ engines, 0 ≤ e.2.utilizationPct ∧ e.2.utilizationPct ≤ 100)
    (mems : List GpuMemRecord) (pid : ℕ) :
    (processView engines mems pid).utilPct =
      ((ownRecords engines pid).map fun e => e.2.utilizationPct).foldl max 0 := by
  refine clampPct_of_mem (Ranges.foldl_max_le_iff.mp le_rfl).1
    (Ranges.foldl_max_le_iff.mpr ⟨by norm_num, fun x hx => ?_⟩)
  obtain ⟨e, he, rfl⟩ := List.mem_map.mp hx
  exact (hutil e (List.mem_filter.mp he).1).2

/-- **A view's utilization is its busiest share.** -/
theorem processView_busiest
    (hutil : ∀ e ∈ engines, 0 ≤ e.2.utilizationPct ∧ e.2.utilizationPct ≤ 100)
    (mems : List GpuMemRecord) (pid : ℕ) :
    (processView engines mems pid).utilPct =
        ((processView engines mems pid).engines.map GpuEngineShare.utilPct).foldl max 0 ∧
      0 ≤ (processView engines mems pid).utilPct ∧
        (processView engines mems pid).utilPct ≤ 100 := by
  set own := (ownRecords engines pid).map fun e => e.2.utilizationPct with hown
  have hle : own.foldl max 0 ≤ 100 := by
    refine Ranges.foldl_max_le_iff.mpr ⟨by norm_num, fun x hx => ?_⟩
    obtain ⟨e, he, rfl⟩ := List.mem_map.mp hx
    exact (hutil e (List.mem_filter.mp he).1).2
  have hnonneg : 0 ≤ own.foldl max 0 := (Ranges.foldl_max_le_iff.mp le_rfl).1
  have hpct : (processView engines mems pid).utilPct = own.foldl max 0 :=
    utilPct_processView hutil mems pid
  refine ⟨?_, hpct ▸ hnonneg, hpct ▸ hle⟩
  rw [hpct]
  refine le_antisymm ?_ ?_
  · refine Ranges.foldl_max_le_iff.mpr ⟨(Ranges.foldl_max_le_iff.mp le_rfl).1, fun x hx => ?_⟩
    obtain ⟨e, he, rfl⟩ := List.mem_map.mp hx
    rcases (hutil e (List.mem_filter.mp he).1).1.lt_or_eq with hpos | hzero
    · have hshare : engineShare (ordinals engines) e ∈ (processView engines mems pid).engines :=
        List.mem_map_of_mem (List.mem_filter.mpr ⟨he, decide_eq_true hpos⟩)
      exact Ranges.le_foldl_max (List.mem_map_of_mem (f := GpuEngineShare.utilPct) hshare) 0
    · rw [← hzero]
      exact (Ranges.foldl_max_le_iff.mp le_rfl).1
  · refine Ranges.foldl_max_le_iff.mpr ⟨hnonneg, fun x hx => ?_⟩
    obtain ⟨share, hshare, rfl⟩ := List.mem_map.mp hx
    obtain ⟨e, he, rfl⟩ := List.mem_map.mp hshare
    exact Ranges.le_foldl_max
      (List.mem_map_of_mem (f := fun e : ℕ × GpuEngineRecord => e.2.utilizationPct)
        (List.mem_filter.mp he).1) 0

end

/-- **The load of a group of one is the row's own.** -/
theorem pct_singleton {row : ProcessEntry} (hids : (row.gpuEngines.map shareId).Nodup)
    (hpos : ∀ share ∈ row.gpuEngines, 0 < share.utilPct) {v : ℚ} (hv : row.gpuUtilPct = some v)
    (hbusiest : v = (row.gpuEngines.map GpuEngineShare.utilPct).foldl max 0) (hle : v ≤ 100)
    (iteration : HashOrder ((ℕ × ℕ) × ℚ)) : (GpuGroupLoad [row]).pct iteration = some v := by
  have hnonneg : 0 ≤ v := hbusiest ▸ (Ranges.foldl_max_le_iff.mp le_rfl).1
  have hshare : ∀ p ∈ [row], ∀ x ∈ sharesOf p.gpuEngines, 0 ≤ x.2 := by
    intro p hp x hx
    obtain rfl := List.mem_singleton.mp hp
    obtain ⟨share, hmem, rfl⟩ := List.mem_map.mp hx
    exact (hpos share hmem).le
  have hreported : ∀ p ∈ [row], BusiestShare.Reported p.gpuUtilPct (sharesOf p.gpuEngines) := by
    intro p hp
    have hnonneg' := hshare p hp
    obtain rfl := List.mem_singleton.mp hp
    refine ⟨fun w hw => ?_, hnonneg', fun w hw hne => ?_⟩
    · rw [← Option.some.inj (hv.symm.trans hw)]
      exact hnonneg
    · obtain rfl := Option.some.inj (hv.symm.trans hw)
      rcases Ranges.foldl_max_eq_or_mem (p.gpuEngines.map GpuEngineShare.utilPct) 0 with h | h
      · -- the busiest share is not zero, as none is
        obtain ⟨x, hx⟩ := List.exists_mem_of_ne_nil _ hne
        obtain ⟨share, hmem, -⟩ := List.mem_map.mp hx
        have hmax := Ranges.le_foldl_max (List.mem_map_of_mem (f := GpuEngineShare.utilPct) hmem) 0
        rw [h] at hmax
        exact absurd (hpos share hmem) (not_lt.mpr hmax)
      · rw [← hbusiest] at h
        obtain ⟨share, hmem, hutil⟩ := List.mem_map.mp h
        exact ⟨(shareId share, share.utilPct), List.mem_map_of_mem hmem, hutil⟩
  obtain ⟨u, hu, hvu⟩ :=
    BusiestShare.le_pct hreported iteration (List.mem_singleton_self row) hv hle
  have huv : u ≤ v := by
    refine BusiestShare.pct_le_of_subperm (List.Subperm.refl [row]) hshare (fun p hp => ?_) hnonneg
      (fun k => ?_) iteration hu
    · obtain rfl := List.mem_singleton.mp hp
      refine BusiestShare.memberPlain_eq_zero fun hempty => ?_
      rw [hv, hbusiest, List.map_eq_nil_iff.mp hempty]
      rfl
    · rw [List.map_singleton, List.sum_singleton]
      by_cases hk : k ∈ (sharesOf row.gpuEngines).map Prod.fst
      · obtain ⟨x, hx, rfl⟩ := List.mem_map.mp hk
        have hkeys : ((sharesOf row.gpuEngines).map Prod.fst).Nodup := by
          rw [sharesOf, List.map_map]
          exact hids
        rw [BusiestShare.shareOf_of_mem hkeys hx]
        obtain ⟨share, hmem, rfl⟩ := List.mem_map.mp hx
        rw [hbusiest]
        exact Ranges.le_foldl_max (List.mem_map_of_mem (f := GpuEngineShare.utilPct) hmem) 0
      · rw [BusiestShare.shareOf_eq_zero hk]
        exact hnonneg
  rw [← le_antisymm huv hvu]
  exact hu

/-- A group of one row is not rounded. -/
theorem gpuGroupLoadBy_singleton {round : ℚ → ℚ} {row : ProcessEntry}
    (hids : (row.gpuEngines.map shareId).Nodup)
    (hround : ∀ share ∈ row.gpuEngines, round share.utilPct = share.utilPct) (hzero : round 0 = 0)
    {v : ℚ} (hv : row.gpuUtilPct = some v)
    (hbusiest : v = (row.gpuEngines.map GpuEngineShare.utilPct).foldl max 0) :
    GpuGroupLoadBy round [row] = GpuGroupLoad [row] := by
  refine BusiestShare.ofBy_singleton (fun w hw => ?_) (fun x hx => ?_) ?_
  · rw [← Option.some.inj (hv.symm.trans hw)]
    rcases Ranges.foldl_max_eq_or_mem (row.gpuEngines.map GpuEngineShare.utilPct) 0 with h | h
    · rw [hbusiest, h, hzero]
    · rw [← hbusiest] at h
      obtain ⟨share, hmem, rfl⟩ := List.mem_map.mp h
      exact hround share hmem
  · obtain ⟨share, hmem, rfl⟩ := List.mem_map.mp hx
    exact hround share hmem
  · rw [List.map_map]
    exact hids

/-! ### All rows -/

/-- A row is as it was, or takes the view of its process. -/
theorem mem_takeViews {views : List ProcessGpuView} {rows : List ProcessEntry} {row : ProcessEntry}
    (h : row ∈ takeViews views rows) :
    row ∈ rows ∨ ∃ e ∈ rows, ∃ g ∈ views, row = gpuRow e g := by
  induction rows generalizing views with
  | nil => cases h
  | cons e rows ih =>
    unfold takeViews at h
    split at h
    · rename_i g hfind
      rcases List.mem_cons.mp h with rfl | h
      · exact Or.inr ⟨e, List.mem_cons_self, g, List.mem_of_find?_eq_some hfind, rfl⟩
      · rcases ih h with h | ⟨e', he', g', hg', rfl⟩
        · exact Or.inl (List.mem_cons_of_mem _ h)
        · exact Or.inr ⟨e', List.mem_cons_of_mem _ he', g', (List.mem_filter.mp hg').1, rfl⟩
    · rcases List.mem_cons.mp h with rfl | h
      · exact Or.inl List.mem_cons_self
      · rcases ih h with h | ⟨e', he', g', hg', rfl⟩
        · exact Or.inl (List.mem_cons_of_mem _ h)
        · exact Or.inr ⟨e', List.mem_cons_of_mem _ he', g', hg', rfl⟩

/-- The first row of a process takes the view of it. -/
theorem find_takeViews {views : List ProcessGpuView} {rows : List ProcessEntry} {pid : ℕ}
    {row : ProcessEntry}
    (h : (takeViews views rows).find? (fun row => decide (row.pid = pid)) = some row) :
    ∃ e ∈ rows, row = ((views.find? fun g => decide (g.pid = pid)).map (gpuRow e)).getD e := by
  induction rows generalizing views with
  | nil => cases h
  | cons e rows ih =>
    unfold takeViews at h
    cases hfind : views.find? fun g => decide (g.pid = e.pid) with
    | some g =>
      simp only [hfind] at h
      by_cases hpid : e.pid = pid
      · subst hpid
        rw [List.find?_cons, show decide ((gpuRow e g).pid = e.pid) = true from
          decide_eq_true rfl] at h
        refine ⟨e, List.mem_cons_self, ?_⟩
        rw [hfind, ← Option.some.inj h]
        rfl
      · rw [List.find?_cons, show decide ((gpuRow e g).pid = pid) = false from
          decide_eq_false hpid] at h
        obtain ⟨e', he', rfl⟩ := ih h
        -- the views of other processes are still there
        have hsame : (views.filter fun g => !decide (g.pid = e.pid)).find?
            (fun g => decide (g.pid = pid)) = views.find? fun g => decide (g.pid = pid) := by
          rw [List.find?_filter]
          congr 1
          funext g
          by_cases hg : g.pid = pid
          · simp [hg, Ne.symm hpid]
          · simp [hg]
        exact ⟨e', List.mem_cons_of_mem _ he', by rw [hsame]⟩
    | none =>
      simp only [hfind] at h
      by_cases hpid : e.pid = pid
      · subst hpid
        rw [List.find?_cons, decide_eq_true (rfl : e.pid = e.pid)] at h
        refine ⟨e, List.mem_cons_self, ?_⟩
        rw [hfind, ← Option.some.inj h]
        rfl
      · rw [List.find?_cons, decide_eq_false hpid] at h
        obtain ⟨e', he', rfl⟩ := ih h
        exact ⟨e', List.mem_cons_of_mem _ he', rfl⟩

/-- **The rows show no more than the views**: each view is taken once. -/
theorem sum_takeViews_le {f : List GpuEngineShare → ℚ} {views : List ProcessGpuView}
    (hf : ∀ g ∈ views, 0 ≤ f g.engines) {rows : List ProcessEntry}
    (hrows : ∀ row ∈ rows, f row.gpuEngines = 0) :
    ((takeViews views rows).map fun row => f row.gpuEngines).sum ≤
      (views.map fun g => f g.engines).sum := by
  induction rows generalizing views with
  | nil =>
    refine List.sum_nonneg fun x hx => ?_
    obtain ⟨g, hg, rfl⟩ := List.mem_map.mp hx
    exact hf g hg
  | cons e rows ih =>
    have hrest : ∀ row ∈ rows, f row.gpuEngines = 0 :=
      fun row hrow => hrows row (List.mem_cons_of_mem _ hrow)
    unfold takeViews
    split
    · rename_i g hfind
      rw [List.map_cons, List.sum_cons, ← List.sum_map_filter_add_sum_map_filter_not
        (fun g => g.pid = e.pid) (fun g => f g.engines) views]
      refine add_le_add ?_ ?_
      · have hpid : g.pid = e.pid := by simpa using List.find?_some hfind
        refine List.single_le_sum ?_ _ (List.mem_map_of_mem (f := fun g => f g.engines)
          (List.mem_filter.mpr ⟨List.mem_of_find?_eq_some hfind, decide_eq_true hpid⟩))
        intro y hy
        obtain ⟨g', hg', rfl⟩ := List.mem_map.mp hy
        exact hf g' (List.mem_filter.mp hg').1
      · have hothers : ∀ g' ∈ views.filter fun g => !decide (g.pid = e.pid), 0 ≤ f g'.engines :=
          fun g' hg' => hf g' (List.mem_filter.mp hg').1
        simpa using ih hothers hrest
    · rw [List.map_cons, List.sum_cons, hrows e List.mem_cons_self, zero_add]
      exact ih hf hrest

/-- What a process shows: the busiest of the displayed records of it, or nothing where no displayed
record names the process. -/
def shownUtil (gpus : List GpuInfo) (engineRecords : List GpuEngineRecord)
    (memRecords : List GpuMemRecord) (pid : ℕ) : Option ℚ :=
  let engines := displayed gpus engineRecords
  if pid ∈ viewedPids engines (memRecords.filter fun m => (adapterOf gpus m.luid).isSome) then
    some (((ownRecords engines pid).map fun e => e.2.utilizationPct).foldl max 0)
  else none

/-- Each process shows its busiest share. -/
structure RowsBusiest (round : ℚ → ℚ) (gpus : List GpuInfo) (engineRecords : List GpuEngineRecord)
    (memRecords : List GpuMemRecord) (rows : List ProcessEntry) : Prop where
  /-- The row of a process, the first one if there are several, shows it. -/
  shown : ∀ pid row, rows.find? (fun row => decide (row.pid = pid)) = some row →
    row.gpuUtilPct = shownUtil gpus engineRecords memRecords pid
  /-- It is the busiest of the row's engine shares, and the row's load as a group of one. -/
  own : ∀ row ∈ rows, ∀ v, row.gpuUtilPct = some v →
    v = (row.gpuEngines.map GpuEngineShare.utilPct).foldl max 0 ∧
      ∀ iteration, (GpuGroupLoadBy round [row]).pct iteration = some v

/-- No group of rows exceeds the machine totals. -/
def GroupsWithin (gpus : List GpuInfo) (rows : List ProcessEntry) : Prop :=
  ∀ members : List ProcessEntry, members.Subperm rows → ∀ iteration v,
    (GpuGroupLoad members).pct iteration = some v → v ≤ busiestEngine gpus

section

variable {round : ℚ → ℚ} {adapters : List AdapterInfo} {engineRecords : List GpuEngineRecord}
  {adapterMemRecords : List GpuAdapterMemRecord}

/-- A process has one share of each engine. -/
theorem nodup_shareId (hunique : (engineRecords.map fun r => (r.luid, r.pid, r.key)).Nodup)
    (mems : List GpuMemRecord) (pid : ℕ) :
    ((processView (displayed (merge round adapters engineRecords adapterMemRecords) engineRecords)
      mems pid).engines.map shareId).Nodup := by
  rw [engines_processView, List.map_map]
  have hdisplayed :
      (displayed (merge round adapters engineRecords adapterMemRecords) engineRecords).Nodup := by
    refine List.Nodup.filterMap (fun r r' e hr hr' => ?_) (List.Nodup.of_map _ hunique)
    obtain ⟨adapter, -, rfl⟩ := Option.map_eq_some_iff.mp hr
    obtain ⟨adapter', -, heq⟩ := Option.map_eq_some_iff.mp hr'
    exact (congrArg Prod.snd heq).symm
  refine List.Nodup.map_on (fun e he e' he' hid => ?_) (hdisplayed.filter _)
  obtain ⟨hmem, hown⟩ := List.mem_filter.mp he
  obtain ⟨hmem', hown'⟩ := List.mem_filter.mp he'
  have hpid : e.2.pid = some pid := of_decide_eq_true (Bool.and_eq_true_iff.mp hown).1
  have hpid' : e'.2.pid = some pid := of_decide_eq_true (Bool.and_eq_true_iff.mp hown').1
  obtain ⟨hluid, hkey⟩ := (engineShare_id_iff hmem hmem').mp hid
  obtain ⟨hrecord, hadapter⟩ := mem_displayed.mp hmem
  obtain ⟨hrecord', hadapter'⟩ := mem_displayed.mp hmem'
  have hsame : e.2 = e'.2 := by
    refine List.inj_on_of_nodup_map hunique hrecord hrecord' ?_
    rw [hluid, hpid, hpid', hkey]
  rw [hluid] at hadapter
  exact Prod.ext (Option.some.inj (hadapter.symm.trans hadapter')) hsame

/-- All views together show no more of an engine than the machine totals report. -/
theorem sum_views_le (hutil : ∀ r ∈ engineRecords, 0 ≤ r.utilizationPct)
    (hbusiest : busiestEngine (merge id adapters engineRecords adapterMemRecords) < 100)
    (memRecords : List GpuMemRecord) (k : ℕ × ℕ) :
    ((processGpuView (merge id adapters engineRecords adapterMemRecords) engineRecords
        memRecords).map fun g => shareOf (sharesOf g.engines) k).sum ≤
      busiestEngine (merge id adapters engineRecords adapterMemRecords) := by
  set gpus := merge id adapters engineRecords adapterMemRecords
  set engines := displayed gpus engineRecords with hengines
  set mems := memRecords.filter fun m => (adapterOf gpus m.luid).isSome
  have hnonneg : ∀ e ∈ engines, 0 ≤ e.2.utilizationPct := fun e he =>
    hutil e.2 (mem_displayed.mp he).1
  have hview : ∀ pid, shareOf (sharesOf (processView engines mems pid).engines) k =
      (engines.map fun e =>
        if (decide (e.2.pid = some pid) && decide (0 < e.2.utilizationPct)) = true ∧
          shareId (engineShare (ordinals engines) e) = k then e.2.utilizationPct else 0).sum := by
    intro pid
    rw [engines_processView, sharesOf, List.map_map]
    exact shareOf_map_filter engines _ (fun e => shareId (engineShare (ordinals engines) e))
      (fun e => e.2.utilizationPct) k
  calc ((processGpuView gpus engineRecords memRecords).map
        fun g => shareOf (sharesOf g.engines) k).sum
      = ((viewedPids engines mems).map fun pid =>
          shareOf (sharesOf (processView engines mems pid).engines) k).sum := by
        rw [processGpuView, List.map_map]
        rfl
    _ ≤ (engines.map fun e => if shareId (engineShare (ordinals engines) e) = k
          then e.2.utilizationPct else 0).sum := by
        simp only [hview]
        exact sum_pids_le (List.nodup_dedup _) engines (fun e => e.2.pid) _ _ hnonneg k
    _ ≤ busiestEngine gpus := sum_engine_le hutil hbusiest k

/-- The rows cover the displayed adapters only. -/
theorem applyProcessGpu_filter_shown (processes : List ProcessEntry)
    (memRecords : List GpuMemRecord) :
    applyProcessGpu processes (merge round adapters engineRecords adapterMemRecords)
        (engineRecords.filter fun r => shown adapters r.luid)
        (memRecords.filter fun m => m.luid.any (shown adapters)) =
      applyProcessGpu processes (merge round adapters engineRecords adapterMemRecords) engineRecords
        memRecords := by
  set gpus := merge round adapters engineRecords adapterMemRecords with hgpus
  have hengines : displayed gpus (engineRecords.filter fun r => shown adapters r.luid) =
      displayed gpus engineRecords := by
    unfold displayed
    rw [List.filterMap_filter]
    refine List.filterMap_congr fun r _ => ?_
    rw [← isSome_adapterOf round engineRecords adapterMemRecords, ← hgpus]
    cases adapterOf gpus (some r.luid) <;> rfl
  have hmems : (memRecords.filter fun m => m.luid.any (shown adapters)).filter
      (fun m => (adapterOf gpus m.luid).isSome) =
        memRecords.filter fun m => (adapterOf gpus m.luid).isSome := by
    rw [List.filter_filter]
    refine List.filter_congr fun m _ => ?_
    cases hluid : m.luid with
    | none => rfl
    | some luid =>
      rw [hgpus, isSome_adapterOf, Option.any_some, Bool.and_self]
  have hviews : processGpuView gpus (engineRecords.filter fun r => shown adapters r.luid)
      (memRecords.filter fun m => m.luid.any (shown adapters)) =
        processGpuView gpus engineRecords memRecords := by
    unfold processGpuView
    rw [hengines, hmems]
  have hnothing : ∀ rows, takeViews [] rows = rows := by
    intro rows
    induction rows with
    | nil => rfl
    | cons e rows ih => exact congrArg (e :: ·) ih
  have happly : ∀ engineRecords memRecords,
      applyProcessGpu processes gpus engineRecords memRecords =
        takeViews (processGpuView gpus engineRecords memRecords) processes := by
    intro engineRecords memRecords
    unfold applyProcessGpu
    split
    · rename_i hempty
      obtain ⟨hnoEngines, hnoMems⟩ := Bool.and_eq_true_iff.mp hempty
      rw [List.isEmpty_iff.mp hnoEngines, List.isEmpty_iff.mp hnoMems]
      exact (hnothing processes).symm
    · rfl
  rw [happly, happly, hviews]

end

/-- A row has no value, or that of the view of its process. -/
theorem mem_applyProcessGpu {processes : List ProcessEntry} {gpus : List GpuInfo}
    {engineRecords : List GpuEngineRecord} {memRecords : List GpuMemRecord} {row : ProcessEntry}
    (hrows : ∀ p ∈ processes, p.gpuUtilPct = none ∧ p.gpuEngines = [])
    (h : row ∈ applyProcessGpu processes gpus engineRecords memRecords) :
    (row.gpuUtilPct = none ∧ row.gpuEngines = []) ∨
      ∃ mems pid, row.gpuUtilPct =
          some (processView (displayed gpus engineRecords) mems pid).utilPct ∧
        row.gpuEngines = (processView (displayed gpus engineRecords) mems pid).engines := by
  unfold applyProcessGpu at h
  split at h
  · exact Or.inl (hrows row h)
  · rcases mem_takeViews h with h | ⟨e, -, g, hg, rfl⟩
    · exact Or.inl (hrows row h)
    · obtain ⟨pid, -, rfl⟩ := List.mem_map.mp hg
      exact Or.inr ⟨_, pid, rfl, rfl⟩

/-- All rows together show no more of an engine than the machine totals report. -/
theorem sum_rows_le {adapters : List AdapterInfo} {engineRecords : List GpuEngineRecord}
    {adapterMemRecords : List GpuAdapterMemRecord} {processes : List ProcessEntry}
    (hutil : ∀ r ∈ engineRecords, 0 ≤ r.utilizationPct)
    (hrows : ∀ p ∈ processes, p.gpuEngines = [])
    (hbusiest : busiestEngine (merge id adapters engineRecords adapterMemRecords) < 100)
    (memRecords : List GpuMemRecord) (k : ℕ × ℕ) :
    ((applyProcessGpu processes (merge id adapters engineRecords adapterMemRecords) engineRecords
        memRecords).map fun row => shareOf (sharesOf row.gpuEngines) k).sum ≤
      busiestEngine (merge id adapters engineRecords adapterMemRecords) := by
  have hnone : ∀ row ∈ processes, shareOf (sharesOf row.gpuEngines) k = 0 := by
    intro row hrow
    rw [hrows row hrow]
    rfl
  unfold applyProcessGpu
  split
  · rw [List.sum_eq_zero]
    · exact busiestEngine_nonneg _
    · intro x hx
      obtain ⟨row, hrow, rfl⟩ := List.mem_map.mp hx
      exact hnone row hrow
  · refine (sum_takeViews_le (f := fun engines => shareOf (sharesOf engines) k) (fun g hg => ?_)
      hnone).trans (sum_views_le hutil hbusiest memRecords k)
    obtain ⟨pid, -, rfl⟩ := List.mem_map.mp hg
    refine BusiestShare.shareOf_nonneg (fun x hx => ?_) k
    obtain ⟨share, hshare, rfl⟩ := List.mem_map.mp hx
    exact (pos_of_mem_engines hshare).le

/-- A process has a view exactly where a displayed record names it. -/
theorem find_processGpuView (gpus : List GpuInfo) (engineRecords : List GpuEngineRecord)
    (memRecords : List GpuMemRecord) (pid : ℕ) :
    let engines := displayed gpus engineRecords
    let mems := memRecords.filter fun m => (adapterOf gpus m.luid).isSome
    (processGpuView gpus engineRecords memRecords).find? (fun g => decide (g.pid = pid)) =
      if pid ∈ viewedPids engines mems then some (processView engines mems pid) else none := by
  intro engines mems
  have hmap : (processGpuView gpus engineRecords memRecords).find? (fun g => decide (g.pid = pid)) =
      ((viewedPids engines mems).find? fun p => decide (p = pid)).map (processView engines mems) :=
    List.find?_map
  rw [hmap]
  cases hfind : (viewedPids engines mems).find? fun p => decide (p = pid) with
  | none =>
    refine (if_neg fun hviewed => ?_).symm
    exact absurd (decide_eq_true rfl) (List.find?_eq_none.mp hfind pid hviewed)
  | some p =>
    obtain rfl : p = pid := by simpa using List.find?_some hfind
    rw [if_pos (List.mem_of_find?_eq_some hfind), Option.map_some]

/-- **Each process shows the busiest of the displayed records of it.** -/
theorem find_applyProcessGpu {gpus : List GpuInfo} {processes : List ProcessEntry}
    {engineRecords : List GpuEngineRecord} {memRecords : List GpuMemRecord}
    (hutil : ∀ r ∈ engineRecords, 0 ≤ r.utilizationPct ∧ r.utilizationPct ≤ 100)
    (hrows : ∀ p ∈ processes, p.gpuUtilPct = none) {pid : ℕ} {row : ProcessEntry}
    (h : (applyProcessGpu processes gpus engineRecords memRecords).find?
      (fun row => decide (row.pid = pid)) = some row) :
    row.gpuUtilPct = shownUtil gpus engineRecords memRecords pid := by
  have hviews := find_processGpuView gpus engineRecords memRecords pid
  unfold applyProcessGpu at h
  unfold shownUtil
  split at h
  · rename_i hempty
    obtain ⟨hnoEngines, hnoMems⟩ := Bool.and_eq_true_iff.mp hempty
    rw [hrows row (List.mem_of_find?_eq_some h), List.isEmpty_iff.mp hnoEngines,
      List.isEmpty_iff.mp hnoMems]
    rfl
  · obtain ⟨e, he, rfl⟩ := find_takeViews h
    dsimp only at hviews ⊢
    rw [hviews]
    split
    · have hmem : ∀ x ∈ displayed gpus engineRecords,
          0 ≤ x.2.utilizationPct ∧ x.2.utilizationPct ≤ 100 :=
        fun x hx => hutil x.2 (mem_displayed.mp hx).1
      exact congrArg some (utilPct_processView hmem _ pid)
    · exact hrows e he

section Rows

variable {round : ℚ → ℚ} {gpus : List GpuInfo} {engineRecords : List GpuEngineRecord}
  {memRecords : List GpuMemRecord} {processes : List ProcessEntry} {row : ProcessEntry}

/-- The shares of a row are positive and as they were recorded. -/
theorem share_of_mem_applyProcessGpu
    (hround : ∀ r ∈ engineRecords, round r.utilizationPct = r.utilizationPct)
    (hrows : ∀ p ∈ processes, p.gpuUtilPct = none ∧ p.gpuEngines = [])
    (hmem : row ∈ applyProcessGpu processes gpus engineRecords memRecords)
    {share : GpuEngineShare} (hshare : share ∈ row.gpuEngines) :
    0 < share.utilPct ∧ round share.utilPct = share.utilPct := by
  rcases mem_applyProcessGpu hrows hmem with ⟨-, hnil⟩ | ⟨mems, pid, -, hengines⟩
  · rw [hnil] at hshare
    cases hshare
  · rw [hengines] at hshare
    refine ⟨pos_of_mem_engines hshare, ?_⟩
    rw [engines_processView] at hshare
    obtain ⟨e, he, rfl⟩ := List.mem_map.mp hshare
    exact hround e.2 (mem_displayed.mp (List.mem_filter.mp he).1).1

/-- A row with a value shows its busiest share, and alone it is the load of a group. -/
theorem rowsBusiest_applyProcessGpu {adapters : List AdapterInfo}
    {adapterMemRecords : List GpuAdapterMemRecord}
    (hunique : (engineRecords.map fun r => (r.luid, r.pid, r.key)).Nodup)
    (hutil : ∀ r ∈ engineRecords, 0 ≤ r.utilizationPct ∧ r.utilizationPct ≤ 100)
    (hround : ∀ r ∈ engineRecords, round r.utilizationPct = r.utilizationPct) (hzero : round 0 = 0)
    (hrows : ∀ p ∈ processes, p.gpuUtilPct = none ∧ p.gpuEngines = []) :
    let gpus := merge round adapters engineRecords adapterMemRecords
    RowsBusiest round gpus engineRecords memRecords
      (applyProcessGpu processes gpus engineRecords memRecords) := by
  intro gpus
  refine ⟨fun pid row => find_applyProcessGpu hutil fun p hp => (hrows p hp).1,
    fun row hmem v hv => ?_⟩
  rcases mem_applyProcessGpu hrows hmem with ⟨hnone, -⟩ | ⟨mems, pid, hpct, hengines⟩
  · rw [hnone] at hv
    cases hv
  · obtain ⟨hbusiest, -, hle⟩ := @processView_busiest (displayed gpus engineRecords)
      (fun e he => hutil e.2 (mem_displayed.mp he).1) mems pid
    rw [Option.some.inj (hpct.symm.trans hv)] at hbusiest hle
    rw [← hengines] at hbusiest
    have hids : (row.gpuEngines.map shareId).Nodup := by
      rw [hengines]
      exact nodup_shareId hunique mems pid
    have hshares := fun share hshare =>
      @share_of_mem_applyProcessGpu round gpus engineRecords memRecords processes row hround hrows
        hmem share hshare
    refine ⟨hbusiest, fun iteration => ?_⟩
    rw [gpuGroupLoadBy_singleton hids (fun share hshare => (hshares share hshare).2) hzero hv
      hbusiest]
    exact pct_singleton hids (fun share hshare => (hshares share hshare).1) hv hbusiest hle
      iteration

/-- In exact arithmetic no group of rows exceeds the totals. -/
theorem groupsWithin_applyProcessGpu {adapters : List AdapterInfo}
    {adapterMemRecords : List GpuAdapterMemRecord}
    (hutil : ∀ r ∈ engineRecords, 0 ≤ r.utilizationPct ∧ r.utilizationPct ≤ 100)
    (hrows : ∀ p ∈ processes, p.gpuUtilPct = none ∧ p.gpuEngines = []) :
    let gpus := merge id adapters engineRecords adapterMemRecords
    let rows := applyProcessGpu processes gpus engineRecords memRecords
    GroupsWithin gpus rows := by
  intro gpus rows members hmembers iteration v hv
  have hrow := fun row => @mem_applyProcessGpu processes gpus engineRecords memRecords row hrows
  have hshares := fun row =>
    @share_of_mem_applyProcessGpu id gpus engineRecords memRecords processes row (fun _ _ => rfl)
      hrows
  by_cases hfull : 100 ≤ busiestEngine gpus
  · obtain ⟨-, hv⟩ := Option.ite_none_right_eq_some.mp hv
    rw [← Option.some.inj hv]
    exact max_le (busiestEngine_nonneg gpus) ((min_le_left _ _).trans hfull)
  · refine BusiestShare.pct_le_of_subperm hmembers (fun row hmem x hx => ?_)
      (fun row hmem => BusiestShare.memberPlain_eq_zero fun hempty => ?_)
      (busiestEngine_nonneg gpus)
      (sum_rows_le (fun r hr => (hutil r hr).1) (fun p hp => (hrows p hp).2) (not_le.mp hfull)
        memRecords) iteration hv
    · obtain ⟨share, hshare, rfl⟩ := List.mem_map.mp hx
      exact (hshares row hmem hshare).1.le
    · have hnil : row.gpuEngines = [] := List.map_eq_nil_iff.mp hempty
      rcases hrow row hmem with ⟨hnone, -⟩ | ⟨mems, pid, hpct, hengines⟩
      · rw [hnone]
        rfl
      · obtain ⟨hbusiest, -⟩ := @processView_busiest (displayed gpus engineRecords)
          (fun e he => hutil e.2 (mem_displayed.mp he).1) mems pid
        rw [hpct, hbusiest, ← hengines, hnil]
        rfl

end Rows

/-- **GPU rows and groups never exceed the machine totals**: each process shows its busiest share,
in exact arithmetic no group of rows exceeds the totals, only displayed adapters contribute to
either, and an id names one physical engine of one adapter. -/
theorem gpu_within_machine (round : ℚ → ℚ) (adapters : List AdapterInfo)
    (engineRecords : List GpuEngineRecord) (adapterMemRecords : List GpuAdapterMemRecord)
    (memRecords : List GpuMemRecord) (processes : List ProcessEntry)
    (hunique : (engineRecords.map fun r => (r.luid, r.pid, r.key)).Nodup)
    (hutil : ∀ r ∈ engineRecords, 0 ≤ r.utilizationPct ∧ r.utilizationPct ≤ 100)
    (hround : ∀ r ∈ engineRecords, round r.utilizationPct = r.utilizationPct) (hzero : round 0 = 0)
    (hrows : ∀ p ∈ processes, p.gpuUtilPct = none ∧ p.gpuEngines = []) :
    let gpus := merge round adapters engineRecords adapterMemRecords
    let rows := applyProcessGpu processes gpus engineRecords memRecords
    RowsBusiest round gpus engineRecords memRecords rows ∧
      (round = id → GroupsWithin gpus rows) ∧
      (merge round adapters (engineRecords.filter fun r => shown adapters r.luid)
          (adapterMemRecords.filter fun m => shown adapters m.luid) = gpus ∧
        applyProcessGpu processes gpus (engineRecords.filter fun r => shown adapters r.luid)
            (memRecords.filter fun m => m.luid.any (shown adapters)) = rows) ∧
      ∀ e ∈ displayed gpus engineRecords, ∀ e' ∈ displayed gpus engineRecords,
        (shareId (engineShare (ordinals (displayed gpus engineRecords)) e) =
            shareId (engineShare (ordinals (displayed gpus engineRecords)) e') ↔
          e.2.luid = e'.2.luid ∧ e.2.key = e'.2.key) := by
  intro gpus rows
  refine ⟨rowsBusiest_applyProcessGpu hunique hutil hround hzero hrows, ?_,
    ⟨merge_filter_shown, applyProcessGpu_filter_shown processes memRecords⟩,
    fun e he e' he' => engineShare_id_iff he he'⟩
  rintro rfl
  exact groupsWithin_applyProcessGpu hutil hrows

/-- An adapter with its LUID. -/
def exampleAdapter (low : ℕ) : AdapterInfo where
  name := "A".toList
  dedicatedVram := 0
  luid := ⟨0, low⟩
  driverVersion := []
  isSoftware := false

/-- A process's share of the 3D engine of an adapter. -/
def exampleRecord (low pid : ℕ) (pct : ℚ) : GpuEngineRecord where
  luid := ⟨0, low⟩
  pid := some pid
  physIndex := some 0
  engineIndex := some 0
  engineType := "3D".toList
  utilizationPct := pct

/-- The row of a process before it has its GPU values. -/
def exampleProcess (pid : ℕ) : ProcessEntry := { pid, name := "a.exe".toList }

/-- Two processes share the engine of one adapter; a software renderer is not displayed.  The rows
show 60 and 30, the two together 90, which is the load of the engine. -/
theorem gpu_within_machine_example :
    let records := [exampleRecord 1 8 60, exampleRecord 1 9 30, exampleRecord 2 8 100]
    let gpus := merge id [exampleAdapter 1] records []
    let rows := applyProcessGpu [exampleProcess 8, exampleProcess 9] gpus records []
    RowsBusiest id gpus records [] rows ∧ GroupsWithin gpus rows ∧
      rows.map ProcessEntry.gpuUtilPct = [some 60, some 30] ∧
        (GpuGroupLoad rows).pct .inserted = some 90 ∧ busiestEngine gpus = 90 := by
  intro records gpus rows
  have hutil : ∀ r ∈ records, 0 ≤ r.utilizationPct ∧ r.utilizationPct ≤ 100 := by decide +kernel
  have hrows : ∀ p ∈ [exampleProcess 8, exampleProcess 9],
      p.gpuUtilPct = none ∧ p.gpuEngines = [] := by
    intro p hp
    simp only [List.mem_cons, List.not_mem_nil, or_false] at hp
    rcases hp with rfl | rfl
    · exact ⟨rfl, rfl⟩
    · exact ⟨rfl, rfl⟩
  obtain ⟨hbusiest, hwithin, -⟩ := gpu_within_machine id [exampleAdapter 1] records [] []
    [exampleProcess 8, exampleProcess 9] (by decide) hutil (fun _ _ => rfl) rfl hrows
  exact ⟨hbusiest, hwithin rfl, by decide +kernel, by decide +kernel, by decide +kernel⟩

/-- Three processes on one engine, with the `f32` shares 15.2, 9.6 and 0.8.  Added in the order of
the records they are a little less than in the order of the rows. -/
theorem group_over_rounded_machine :
    let pct : ℚ → ℚ := fun tenths => binary32.round (tenths / 10)
    let records :=
      [exampleRecord 1 7 (pct 152), exampleRecord 1 8 (pct 96), exampleRecord 1 9 (pct 8)]
    let gpus := merge binary32.round [exampleAdapter 1] records []
    let rows :=
      applyProcessGpu [exampleProcess 7, exampleProcess 9, exampleProcess 8] gpus records []
    ((records.map fun r => (r.luid, r.pid, r.key)).Nodup ∧
        ∀ r ∈ records, 0 ≤ r.utilizationPct ∧ r.utilizationPct ≤ 100) ∧
      ¬∀ v, (GpuGroupLoadBy binary32.round rows).pct .inserted = some v →
        v ≤ busiestEngine gpus := by
  intro pct records gpus rows
  refine ⟨⟨by decide +kernel, by decide +kernel⟩, fun h => ?_⟩
  have hover :
      ∃ v ∈ (GpuGroupLoadBy binary32.round rows).pct .inserted, busiestEngine gpus < v := by
    decide +kernel
  obtain ⟨v, hv, hlt⟩ := hover
  exact absurd (h v hv) (not_le.mpr hlt)

end Taskman.Gpu
