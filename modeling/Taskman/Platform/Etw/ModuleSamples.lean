import Taskman.Collections.HashOrder
import Taskman.Collections.Tally
import Taskman.Numeric.Ranges
import Taskman.Platform.Broker.Dispatch
import Taskman.Platform.Etw.Profile
import Mathlib.Data.List.Sort
import Mathlib.Order.CompletePartialOrder
import Mathlib.Order.Interval.Set.Disjoint

/-!
# Attributing sampled pages to modules

At the end of a window the pages counted by the profile trace are attributed to the modules of the
target.  What was counted is the page of each instruction pointer, so what is attributed is decided
by where the page starts.

* `samplesByModule` : the attribution, a search for each page among the sorted module ranges;
* `recorded` : the instruction pointers the recorder has counted since the last window;
* `tally_run` : the page table of a run is the capped tally of their pages;
* `samplesByModule_run` : **each module is given the samples whose page starts in its range.**
-/

namespace Taskman.Etw.Profile

open Broker (ProcessModule ProcessModuleCodeSamples)

/-- A module's range that ends within the address space: start, exclusive end, and the module's
place in the list. -/
structure ModuleRange where
  start : ℕ
  stop : ℕ
  index : ℕ

/-- The addresses of a module, unless their end is no address. -/
def ModuleRange.of (a : ProcessModule × ℕ) : Option ModuleRange :=
  (checkedAdd a.1.baseAddress.toNat a.1.sizeBytes.toNat).map fun stop =>
    { start := a.1.baseAddress.toNat, stop, index := a.2 }

/-- The ranges sorted by their starts.  The source's sort may put ranges of one start in any order,
this one keeps the order of the list. -/
def moduleRanges (modules : List ProcessModule) : List ModuleRange :=
  ((modules.zipIdx.filter fun a => a.1.sizeBytes ≠ 0).filterMap ModuleRange.of).insertionSort
    fun a b => a.start ≤ b.start

/-- The place of the module a page is attributed to. -/
def moduleAt (ranges : List ModuleRange) (page : ℕ) : Option ℕ :=
  match Ranges.partitionPoint (fun range => decide (range.start ≤ page)) ranges with
  | 0 => none
  | position + 1 => do
    let range ← ranges[position]?
    if page < range.stop then some range.index else none

/-- Attribute sampled pages to module ranges. -/
def samplesByModule (h : HashOrder (ℕ × ℕ)) (pages : OrdMap ℕ ℕ) (modules : List ProcessModule) :
    ℕ × List ProcessModuleCodeSamples :=
  let ranges := moduleRanges modules
  let counts := (h.order pages.toList).foldl (fun counts entry =>
    match moduleAt ranges entry.1 with
    | some index => counts.modify index fun count => saturatingAdd count entry.2
    | none => counts) (List.replicate modules.length 0)
  let counted := (modules.zip counts).filter fun a => a.2 ≠ 0
  (counted.foldl (fun attributed a => saturatingAdd attributed a.2) 0,
    counted.map fun a => { baseAddress := a.1.baseAddress, samples := a.2 })

/-- The samples of the target in a window. -/
def targetSamples (h : HashOrder (ℕ × ℕ)) (pages : OrdMap ℕ ℕ) : ℕ :=
  (h.order pages.toList).foldl (fun total entry => saturatingAdd total entry.2) 0

/-! ### What is attributed -/

/-- The addresses of a module. -/
def addresses (m : ProcessModule) : Set ℕ :=
  Set.Ico m.baseAddress.toNat (m.baseAddress.toNat + m.sizeBytes.toNat)

instance (m : ProcessModule) : DecidablePred (· ∈ addresses m) := fun _ =>
  inferInstanceAs (Decidable (_ ∧ _))

/-- The exclusive end of a module is an address. -/
def Fits (m : ProcessModule) : Prop :=
  m.baseAddress.toNat + m.sizeBytes.toNat < u64Bound

instance : DecidablePred Fits := fun _ => inferInstanceAs (Decidable (_ < _))

/-- The recorder counts a sample: it takes it for the target's and has room for its page. -/
def State.Records (s : State) (headerPid : ℕ) (sample : SampledProfile) : Prop :=
  s.Takes headerPid sample ∧
    ¬(pageOf sample.instructionPointer ∉ s.pages ∧ maxSamplePages ≤ s.pages.size)

instance (s : State) (headerPid : ℕ) (sample : SampledProfile) :
    Decidable (s.Records headerPid sample) :=
  inferInstanceAs (Decidable ((_ ∨ _) ∧ _))

/-- The instruction pointers recorded since the last window, after one more event. -/
def recordedStep (s : State) (ips : List ℕ) : Event → List ℕ
  | .sample headerPid (some sample) _ =>
    if s.Records headerPid sample then ips ++ [sample.instructionPointer] else ips
  | .takeWindow => []
  | _ => ips

/-- The instruction pointers recorded since the last window of a run. -/
def recorded (targetPid : ℕ) (threadOwners : OrdMap ℕ ℕ) (events : List Event) : List ℕ :=
  (events.foldl (fun a e => (step a.1 e, recordedStep a.1 a.2 e))
    (start targetPid threadOwners, [])).2

/-- The number of recorded samples whose page starts in the module. -/
def share (ips : List ℕ) (m : ProcessModule) : ℕ :=
  if Fits m then min (ips.countP fun ip => pageOf ip ∈ addresses m) (u64Bound - 1) else 0

/-- A module begins and ends where pages do. -/
def PageAligned (m : ProcessModule) : Prop :=
  0x1000 ∣ m.baseAddress.toNat ∧ 0x1000 ∣ m.sizeBytes.toNat

/-- The samples are split among the modules. -/
structure SplitsSamples (ips : List ℕ) (modules : List ProcessModule) (attributed target : ℕ)
    (entries : List ProcessModuleCodeSamples) : Prop where
  entries_eq : entries =
    (modules.map fun m =>
      ({ baseAddress := m.baseAddress, samples := share ips m } : ProcessModuleCodeSamples)).filter
        fun entry => entry.samples ≠ 0
  attributed_eq : attributed = min (entries.map (·.samples)).sum (u64Bound - 1)
  target_eq : target = min ips.length (u64Bound - 1)
  le_target : attributed ≤ target

/-! ### The page table of a run -/

theorem recorded_concat (targetPid : ℕ) (threadOwners : OrdMap ℕ ℕ) (events : List Event)
    (e : Event) :
    recorded targetPid threadOwners (events ++ [e]) =
      recordedStep (run targetPid threadOwners events) (recorded targetPid threadOwners events)
        e := by
  have hfst : ∀ (events : List Event) (a : State × List ℕ),
      (events.foldl (fun a e => (step a.1 e, recordedStep a.1 a.2 e)) a).1 =
        events.foldl step a.1 := by
    intro events
    induction events with
    | nil => exact fun _ => rfl
    | cons e events ih => exact fun a => ih _
  rw [recorded, List.foldl_append, run, ← hfst events (start targetPid threadOwners, [])]
  rfl

/-- A page table that tallies the pages of some instruction pointers. -/
def Tallies (s : State) (ips : List ℕ) : Prop :=
  Tally.Of (u64Bound - 1) s.pages (ips.map pageOf)

/-- One sample more. -/
theorem Tallies.sample {s : State} {ips : List ℕ} (h : Tallies s ips) (headerPid : ℕ)
    (sample : SampledProfile) (payloadLen : ℕ) :
    Tallies (step s (.sample headerPid (some sample) payloadLen))
      (recordedStep s ips (.sample headerPid (some sample) payloadLen)) := by
  show Tally.Of _ _ ((if s.Records headerPid sample then ips ++ [sample.instructionPointer]
    else ips).map pageOf)
  by_cases htakes : s.Takes headerPid sample
  · rw [pages_of_takes htakes]
    unfold State.countPage
    by_cases hfull : pageOf sample.instructionPointer ∉ s.pages ∧ maxSamplePages ≤ s.pages.size
    · rw [if_pos hfull, if_neg fun hrec : s.Records headerPid sample => hrec.2 hfull]
      exact h
    · rw [if_neg hfull, if_pos (show s.Records headerPid sample from ⟨htakes, hfull⟩),
        List.map_append]
      exact Tally.Of.concat h _
  · rw [pages_of_not_takes htakes, if_neg fun hrec : s.Records headerPid sample => htakes hrec.1]
    exact h

theorem Tallies.step {s : State} {ips : List ℕ} (h : Tallies s ips) (e : Event) :
    Tallies (step s e) (recordedStep s ips e) := by
  cases e with
  | sample headerPid sample payloadLen =>
    cases sample with
    | none => exact h
    | some sample => exact h.sample headerPid sample payloadLen
  | trackThread pid tid =>
    show Tally.Of _ (s.trackThread pid tid).pages _
    unfold State.trackThread
    split_ifs <;> exact h
  | forgetThread tid => exact h
  | takeWindow => exact Tally.Of.empty

/-- **The page table of a run tallies the pages of the instruction pointers recorded since the
last window.** -/
theorem tally_run (targetPid : ℕ) (threadOwners : OrdMap ℕ ℕ) (events : List Event) :
    Tallies (run targetPid threadOwners events) (recorded targetPid threadOwners events) := by
  induction events using List.reverseRecOn with
  | nil => exact Tally.Of.empty
  | append_singleton events e ih =>
    rw [run_concat, recorded_concat]
    exact ih.step e

/-! ### The search -/

theorem ModuleRange.of_eq_some_iff {a : ProcessModule × ℕ} {range : ModuleRange} :
    ModuleRange.of a = some range ↔ Fits a.1 ∧
      range = ⟨a.1.baseAddress.toNat, a.1.baseAddress.toNat + a.1.sizeBytes.toNat, a.2⟩ := by
  rw [ModuleRange.of, Option.map_eq_some_iff]
  constructor
  · rintro ⟨stop, hstop, rfl⟩
    rw [checkedAdd, Option.ite_none_right_eq_some] at hstop
    exact ⟨hstop.1, by rw [Option.some.inj hstop.2]⟩
  · rintro ⟨hfits, rfl⟩
    exact ⟨_, if_pos hfits, rfl⟩

theorem mem_moduleRanges {modules : List ProcessModule} {range : ModuleRange} :
    range ∈ moduleRanges modules ↔
      ∃ m i, modules[i]? = some m ∧ m.sizeBytes ≠ 0 ∧ Fits m ∧
        range = ⟨m.baseAddress.toNat, m.baseAddress.toNat + m.sizeBytes.toNat, i⟩ := by
  rw [moduleRanges, List.mem_insertionSort, List.mem_filterMap]
  constructor
  · rintro ⟨⟨m, i⟩, hmem, hrange⟩
    obtain ⟨hidx, hsize⟩ := List.mem_filter.mp hmem
    obtain ⟨hfits, rfl⟩ := ModuleRange.of_eq_some_iff.mp hrange
    exact ⟨m, i, List.mem_zipIdx_iff_getElem?.mp hidx, of_decide_eq_true hsize, hfits, rfl⟩
  · rintro ⟨m, i, hm, hsize, hfits, rfl⟩
    exact ⟨(m, i), List.mem_filter.mpr
      ⟨List.mem_zipIdx_iff_getElem?.mpr hm, decide_eq_true hsize⟩,
      ModuleRange.of_eq_some_iff.mpr ⟨hfits, rfl⟩⟩

theorem start_lt_stop {modules : List ProcessModule} {range : ModuleRange}
    (h : range ∈ moduleRanges modules) : range.start < range.stop := by
  obtain ⟨m, i, -, hsize, -, rfl⟩ := mem_moduleRanges.mp h
  have hpos : 0 < m.sizeBytes.toNat :=
    Nat.pos_of_ne_zero fun hzero => hsize (UInt64.toNat_inj.mp hzero)
  exact Nat.lt_add_of_pos_right hpos

/-- Disjoint modules that are not empty are apart. -/
theorem apart_of_disjoint {m n : ProcessModule} (hm : m.sizeBytes ≠ 0) (hn : n.sizeBytes ≠ 0)
    (h : Disjoint (addresses m) (addresses n)) :
    m.baseAddress.toNat + m.sizeBytes.toNat ≤ n.baseAddress.toNat ∨
      n.baseAddress.toNat + n.sizeBytes.toNat ≤ m.baseAddress.toNat := by
  have hpos : ∀ k : ProcessModule, k.sizeBytes ≠ 0 → 0 < k.sizeBytes.toNat := fun k hk =>
    Nat.pos_of_ne_zero fun hzero => hk (UInt64.toNat_inj.mp hzero)
  have hm := hpos m hm
  have hn := hpos n hn
  by_contra hover
  -- the larger of the two starts lies in both
  refine Set.disjoint_left.mp h
    (show max m.baseAddress.toNat n.baseAddress.toNat ∈ addresses m from ?_)
    (show max m.baseAddress.toNat n.baseAddress.toNat ∈ addresses n from ?_)
  all_goals
    unfold addresses
    rw [Set.mem_Ico]
    omega

/-- The ranges of pairwise disjoint modules follow each other when sorted. -/
theorem pairwise_moduleRanges {modules : List ProcessModule}
    (h : modules.Pairwise fun m n => Disjoint (addresses m) (addresses n)) :
    (moduleRanges modules).Pairwise fun a b => a.stop ≤ b.start := by
  have hsorted : (moduleRanges modules).Pairwise fun a b => a.start ≤ b.start := by
    have : Std.Total fun a b : ModuleRange => a.start ≤ b.start :=
      ⟨fun a b => Nat.le_total a.start b.start⟩
    have : IsTrans ModuleRange fun a b => a.start ≤ b.start :=
      ⟨fun _ _ _ hab hbc => hab.trans hbc⟩
    exact List.pairwise_insertionSort _ _
  refine Ranges.pairwise_of_apart (fun a ha => start_lt_stop ha) hsorted ?_
  refine ((List.perm_insertionSort _ _).pairwise_iff Ranges.Apart.symm).mpr ?_
  have hidx : modules.zipIdx.Pairwise fun a b => Disjoint (addresses a.1) (addresses b.1) := by
    rw [← List.zipIdx_map_fst 0 modules, List.pairwise_map] at h
    exact h
  have hnonempty : (modules.zipIdx.filter fun a => a.1.sizeBytes ≠ 0).Pairwise fun a b =>
      a.1.baseAddress.toNat + a.1.sizeBytes.toNat ≤ b.1.baseAddress.toNat ∨
        b.1.baseAddress.toNat + b.1.sizeBytes.toNat ≤ a.1.baseAddress.toNat :=
    (hidx.filter _).imp_of_mem fun ha hb hab =>
      apart_of_disjoint (of_decide_eq_true (List.mem_filter.mp ha).2)
        (of_decide_eq_true (List.mem_filter.mp hb).2) hab
  refine hnonempty.filterMap _ fun a b hab range hrange range' hrange' => ?_
  obtain ⟨-, rfl⟩ := ModuleRange.of_eq_some_iff.mp hrange
  obtain ⟨-, rfl⟩ := ModuleRange.of_eq_some_iff.mp hrange'
  exact hab

/-- The search finds the module whose range holds the start of the page. -/
theorem moduleAt_eq_some_iff {modules : List ProcessModule}
    (h : modules.Pairwise fun m n => Disjoint (addresses m) (addresses n)) {page index : ℕ} :
    moduleAt (moduleRanges modules) page = some index ↔
      ∃ m, modules[index]? = some m ∧ Fits m ∧ page ∈ addresses m := by
  -- the search finds the last range that starts no later, and the ranges are disjoint
  have hsearch : moduleAt (moduleRanges modules) page = some index ↔
      ∃ range : ModuleRange, range.index = index ∧ range ∈ moduleRanges modules ∧
        range.start ≤ page ∧ page < range.stop := by
    have hlast := fun range : ModuleRange => Ranges.lastStarted_iff (a := range) (x := page)
      (fun a ha => start_lt_stop ha) (pairwise_moduleRanges h)
    unfold moduleAt
    split
    next hzero =>
      simp only [reduceCtorEq, false_iff, not_exists, not_and]
      intro range _ hmem hstart hstop
      obtain ⟨position, hpoint, -⟩ := (hlast range).mpr ⟨hmem, hstart, hstop⟩
      omega
    next position hpoint =>
      refine Option.bind_eq_some_iff.trans ⟨?_, ?_⟩
      · rintro ⟨range, hget, hif⟩
        rw [Option.ite_none_right_eq_some] at hif
        obtain ⟨hstop, hindex⟩ := hif
        exact ⟨range, Option.some.inj hindex,
          (hlast range).mp ⟨position, hpoint, hget, hstop⟩⟩
      · rintro ⟨range, rfl, hin⟩
        obtain ⟨position', hpoint', hget, hstop⟩ := (hlast range).mpr hin
        obtain rfl : position = position' := by omega
        exact ⟨range, hget, if_pos hstop⟩
  rw [hsearch]
  constructor
  · rintro ⟨range, rfl, hmem, hstart, hstop⟩
    obtain ⟨m, i, hm, -, hfits, rfl⟩ := mem_moduleRanges.mp hmem
    exact ⟨m, hm, hfits, hstart, hstop⟩
  · rintro ⟨m, hm, hfits, hstart, hstop⟩
    have hsize : m.sizeBytes ≠ 0 := by
      rintro hzero
      rw [hzero] at hstop
      exact absurd hstart (not_le.mpr hstop)
    exact ⟨⟨_, _, index⟩, rfl, mem_moduleRanges.mpr ⟨m, index, hm, hsize, hfits, rfl⟩, hstart,
      hstop⟩

/-! ### The attribution -/

/-- The counters the loop over the pages leaves. -/
theorem counts_eq {modules : List ProcessModule}
    (h : modules.Pairwise fun m n => Disjoint (addresses m) (addresses n)) {s : State}
    {ips : List ℕ} (hs : Tallies s ips) {entries : List (ℕ × ℕ)}
    (hentries : entries.Perm s.pages.toList) :
    entries.foldl (fun counts entry =>
        match moduleAt (moduleRanges modules) entry.1 with
        | some index => counts.modify index fun count => saturatingAdd count entry.2
        | none => counts) (List.replicate modules.length 0) =
      modules.map (share ips) := by
  refine List.ext_getElem? fun i => ?_
  have hslot := Tally.getElem?_foldl_modify
    (fun entry : ℕ × ℕ => moduleAt (moduleRanges modules) entry.1)
    (fun count entry => saturatingAdd count entry.2) entries (List.replicate modules.length 0) i
  refine hslot.trans ?_
  rw [List.getElem?_map]
  cases hm : modules[i]? with
  | none =>
    have hlen := List.getElem?_eq_none_iff.mp hm
    rw [List.getElem?_eq_none (by rw [List.length_replicate]; exact hlen)]
    rfl
  | some m =>
    have hlt := (List.getElem?_eq_some_iff.mp hm).1
    rw [List.getElem?_replicate, if_pos hlt]
    refine congrArg some ?_
    have hsum := hs.sum_filter hentries fun page =>
      decide (moduleAt (moduleRanges modules) page = some i)
    refine hsum.trans ?_
    -- the pages attributed to the module are those that start in it, if its end is an address
    have hat : ∀ page, moduleAt (moduleRanges modules) page = some i ↔
        Fits m ∧ page ∈ addresses m := fun page => by
      rw [moduleAt_eq_some_iff h, hm]
      exact ⟨fun ⟨n, hn, hin⟩ => Option.some.inj hn ▸ hin, fun hin => ⟨m, rfl, hin⟩⟩
    unfold share
    rw [List.countP_map]
    split_ifs with hfits
    · refine congrArg (min · _) (List.countP_congr fun ip _ => ?_)
      simp [hat, hfits]
    · have hzero : ips.countP ((fun page =>
          decide (moduleAt (moduleRanges modules) page = some i)) ∘ pageOf) = 0 :=
        List.countP_eq_zero.mpr fun ip _ => by simp [hat, hfits]
      rw [hzero]
      rfl

/-- The shares of disjoint modules do not add up to more than there is. -/
theorem sum_share_le {modules : List ProcessModule}
    (h : modules.Pairwise fun m n => Disjoint (addresses m) (addresses n)) (ips : List ℕ) :
    (modules.map (share ips)).sum ≤ ips.length := by
  have hle : (modules.map (share ips)).sum ≤
      (modules.map fun m => ips.countP fun ip => decide (pageOf ip ∈ addresses m)).sum := by
    refine List.sum_le_sum fun m _ => ?_
    unfold share
    split_ifs
    · exact min_le_left _ _
    · exact Nat.zero_le _
  refine hle.trans (Tally.sum_countP_le (h.imp fun hmn ip hm hn => ?_) ips)
  exact Set.disjoint_left.mp hmn (of_decide_eq_true hm) (of_decide_eq_true hn)

/-- The result of the attribution: the modules that were given any samples, each with its
share. -/
theorem Tallies.samplesByModule_eq {s : State} {ips : List ℕ} (htally : Tallies s ips)
    (h : HashOrder (ℕ × ℕ)) {modules : List ProcessModule}
    (hdisjoint : modules.Pairwise fun m n => Disjoint (addresses m) (addresses n)) :
    samplesByModule h s.pages modules =
      ((((modules.map fun m => (m, share ips m)).filter fun a => a.2 ≠ 0).foldl
        (fun attributed a => saturatingAdd attributed a.2) 0),
      ((modules.map fun m => (m, share ips m)).filter fun a => a.2 ≠ 0).map fun a =>
        { baseAddress := a.1.baseAddress, samples := a.2 }) := by
  rw [List.map_prod_left_eq_zip, ← counts_eq hdisjoint htally (h.perm s.pages.toList)]
  rfl

/-- A page table is split among the modules. -/
theorem Tallies.splitsSamples {s : State} {ips : List ℕ} (htally : Tallies s ips)
    (h : HashOrder (ℕ × ℕ)) {modules : List ProcessModule}
    (hdisjoint : modules.Pairwise fun m n => Disjoint (addresses m) (addresses n)) :
    SplitsSamples ips modules (samplesByModule h s.pages modules).1 (targetSamples h s.pages)
      (samplesByModule h s.pages modules).2 := by
  have hresult := htally.samplesByModule_eq h hdisjoint
  have htarget : targetSamples h s.pages = min ips.length (u64Bound - 1) := by
    have hsum := htally.sum_filter (h.perm s.pages.toList) fun _ => true
    rw [List.filter_true, List.countP_true, List.length_map] at hsum
    exact hsum
  have hattributed : (samplesByModule h s.pages modules).1 =
      min ((samplesByModule h s.pages modules).2.map (·.samples)).sum (u64Bound - 1) := by
    rw [hresult]
    refine (Tally.foldl_addUpTo Prod.snd _ (Nat.zero_le (u64Bound - 1))).trans ?_
    rw [Nat.zero_add, List.map_map]
    rfl
  have hle : ((samplesByModule h s.pages modules).2.map (·.samples)).sum ≤ ips.length := by
    rw [hresult, List.map_map]
    have hsub := ((List.filter_sublist (p := fun a : ProcessModule × ℕ => a.2 ≠ 0)
      (l := modules.map fun m => (m, share ips m))).map Prod.snd).sum_le_sum
        fun _ _ => Nat.zero_le _
    rw [List.map_map (f := fun m => (m, share ips m))] at hsub
    exact hsub.trans (sum_share_le hdisjoint ips)
  refine ⟨?_, hattributed, htarget, ?_⟩
  · rw [hresult, List.filter_map, List.filter_map, List.map_map]
    rfl
  · rw [hattributed, htarget]
    exact min_le_min_right _ hle

theorem pageOf_mem_addresses_iff {m : ProcessModule} (h : PageAligned m) (ip : ℕ) :
    pageOf ip ∈ addresses m ↔ ip ∈ addresses m := by
  obtain ⟨⟨base, hbase⟩, size, hsize⟩ := h
  simp only [addresses, Set.mem_Ico, pageOf, hbase, hsize]
  omega

/-- **Each module is given the samples whose page starts in its range.**  After any events, for
modules that are pairwise disjoint, the entries are those of the modules that were given any; a
module whose end is no address is given none, any other exactly the samples whose page starts in
its range, counted up to the greatest `u64`.  The total is the sum of the entries and not more than
the samples of the target.  In a module that begins and ends where pages do, these are the samples
whose instruction pointer lies in its range. -/
theorem samplesByModule_run (h : HashOrder (ℕ × ℕ)) (targetPid : ℕ) (threadOwners : OrdMap ℕ ℕ)
    (events : List Event) {modules : List ProcessModule}
    (hdisjoint : modules.Pairwise fun m n => Disjoint (addresses m) (addresses n)) :
    SplitsSamples (recorded targetPid threadOwners events) modules
        (samplesByModule h (run targetPid threadOwners events).pages modules).1
        (targetSamples h (run targetPid threadOwners events).pages)
        (samplesByModule h (run targetPid threadOwners events).pages modules).2 ∧
      ∀ m ∈ modules, PageAligned m → Fits m →
        share (recorded targetPid threadOwners events) m =
          min ((recorded targetPid threadOwners events).countP fun ip => ip ∈ addresses m)
            (u64Bound - 1) := by
  refine ⟨(tally_run targetPid threadOwners events).splitsSamples h hdisjoint, ?_⟩
  intro m _ haligned hfits
  unfold share
  rw [if_pos hfits]
  exact congrArg (min · _) (List.countP_congr fun ip _ => by
    simp [pageOf_mem_addresses_iff haligned])

/-- Three samples of process 84, one of them in none of two neighbouring modules. -/
theorem samplesByModule_run_two :
    SplitsSamples
      (recorded 84 ∅ [.sample 84 (some ⟨0x1900, 100⟩) 20, .sample 84 (some ⟨0x2000, 100⟩) 20,
        .sample 84 (some ⟨0x5000, 100⟩) 20])
      [⟨['b'], ['b'], 0x2000, 0x1000⟩, ⟨['a'], ['a'], 0x1000, 0x1000⟩] 2 3
      [⟨0x2000, 1⟩, ⟨0x1000, 1⟩] := by
  have hdisjoint : [(⟨['b'], ['b'], 0x2000, 0x1000⟩ : ProcessModule),
      ⟨['a'], ['a'], 0x1000, 0x1000⟩].Pairwise fun m n =>
        Disjoint (addresses m) (addresses n) :=
    List.pairwise_pair.mpr (Set.Ico_disjoint_Ico.mpr (by decide))
  have hrun := (samplesByModule_run .inserted 84 ∅
    [.sample 84 (some ⟨0x1900, 100⟩) 20, .sample 84 (some ⟨0x2000, 100⟩) 20,
      .sample 84 (some ⟨0x5000, 100⟩) 20] hdisjoint).1
  have htarget : targetSamples .inserted (run 84 ∅
      [.sample 84 (some ⟨0x1900, 100⟩) 20, .sample 84 (some ⟨0x2000, 100⟩) 20,
        .sample 84 (some ⟨0x5000, 100⟩) 20]).pages = 3 := by decide +kernel
  have hresult : samplesByModule .inserted (run 84 ∅
      [.sample 84 (some ⟨0x1900, 100⟩) 20, .sample 84 (some ⟨0x2000, 100⟩) 20,
        .sample 84 (some ⟨0x5000, 100⟩) 20]).pages
      [⟨['b'], ['b'], 0x2000, 0x1000⟩, ⟨['a'], ['a'], 0x1000, 0x1000⟩] =
        (2, [⟨0x2000, 1⟩, ⟨0x1000, 1⟩]) := by decide +kernel
  rwa [hresult, htarget] at hrun

/-- A module that begins inside a page is not given a sample in it: the page starts below the
module. -/
theorem not_by_instruction_pointer :
    (samplesByModule .inserted (run 84 ∅ [.sample 84 (some ⟨0x1900, 100⟩) 20]).pages
        [⟨['a'], ['a'], 0x1800, 0x1000⟩]).2 ≠
      ([⟨['a'], ['a'], 0x1800, 0x1000⟩].map fun m =>
        ({ baseAddress := m.baseAddress
           samples := (recorded 84 ∅ [.sample 84 (some ⟨0x1900, 100⟩) 20]).countP
             fun ip => ip ∈ addresses m } : ProcessModuleCodeSamples)).filter
          fun entry => entry.samples ≠ 0 := by
  decide +kernel

end Taskman.Etw.Profile
