import Taskman.Binary.Within
import Mathlib.Algebra.BigOperators.Group.List.Basic

/-!
# Processor topology

Windows describes packages, cores and caches in one buffer of records of different lengths, each
with its kind and its length in front.  The walk takes a record only where a whole structure of the
largest kind still fits into the buffer.

* `RelationLayout` : what the `windows` crate declares of the structure and its kinds;
* `collectTopology` : the walk, which **reads nothing outside the buffer and ends**
  (`exists_collectTopology`);
* `Relation.WellFormed` : a record at least as long as its header and kind need;
* `admitted` : the records that the walk takes, in front of the first one that starts too late;
* `collects_iff` : **every package, core and cache is counted once exactly if each of them starts at
  least the size of the structure before the end of the buffer**.

Addresses have 64 bits, as on every target of Windows the program is built for.
-/

namespace Taskman.CpuInfo

/-- The code has no errors of its own, only panics. -/
abbrev Walk (α : Type) := Checked Empty α

/-- The values of a `usize` are below this bound. -/
abbrev usizeBound : ℕ := 2 ^ 64

/-- What the walk fills of the static facts about the processor; the counts stay below the length of
the buffer. -/
@[ext]
structure CpuStatic where
  sockets : ℕ := 0
  physicalCores : ℕ := 0
  l1KbTotal : ℕ := 0
  l2KbTotal : ℕ := 0
  l3KbTotal : ℕ := 0
  deriving DecidableEq

/-- Folds one cache into the totals of its level. -/
def addCache (out : CpuStatic) (level sizeBytes : ℕ) : CpuStatic :=
  let kb := sizeBytes / 1024
  match level with
  | 1 => { out with l1KbTotal := out.l1KbTotal + kb }
  | 2 => { out with l2KbTotal := out.l2KbTotal + kb }
  | 3 => { out with l3KbTotal := out.l3KbTotal + kb }
  | _ => out

/-- The kind of a record about a core. -/
abbrev RelationProcessorCore : ℕ := 0

/-- The kind of a record about a cache. -/
abbrev RelationCache : ℕ := 2

/-- The kind of a record about a package. -/
abbrev RelationProcessorPackage : ℕ := 3

/-- What the `windows` crate declares of `SYSTEM_LOGICAL_PROCESSOR_INFORMATION_EX`, a union of the
kinds after a header of 8 bytes, and what a record of a kind needs. -/
structure RelationLayout where
  /-- The size of the whole structure, that of its largest kind. -/
  entrySize : ℕ
  /-- A package or a core: the header and `PROCESSOR_RELATIONSHIP`. -/
  processorSize : ℕ
  /-- A cache: the header and `CACHE_RELATIONSHIP`. -/
  cacheSize : ℕ
  header_le : 8 ≤ processorSize
  processor_le : processorSize ≤ entrySize
  /-- `Level` and `CacheSize` lie in the first 16 bytes. -/
  fields_le : 16 ≤ cacheSize
  cache_le : cacheSize ≤ entrySize
  entry_lt : entrySize < 2 ^ 32

/-- The structure as it is laid out for 64-bit addresses. -/
def RelationLayout.bits64 : RelationLayout where
  entrySize := 80
  processorSize := 48
  cacheSize := 56
  header_le := by decide
  processor_le := by decide
  fields_le := by decide
  cache_le := by decide
  entry_lt := by decide

/-- What one record adds, by the value of its kind. -/
def countEntry (out : CpuStatic) (entry : Bytes) (relationship : ℕ) : Walk CpuStatic :=
  if relationship = RelationProcessorPackage then .ok { out with sockets := out.sockets + 1 }
  else if relationship = RelationProcessorCore then
    .ok { out with physicalCores := out.physicalCores + 1 }
  else if relationship = RelationCache then do
    let level ← Checked.readLe usizeBound entry 8 1
    let cacheSize ← Checked.readLe usizeBound entry 12 4
    .ok (addCache out level cacheSize)
  else .ok out

-- the named conditions are for the proof that the loop ends
set_option linter.unusedVariables false in
/-- The loop over the entries. -/
def topologyFrom (layout : RelationLayout) (buf : Bytes) (offset : ℕ) (out : CpuStatic) :
    Walk CpuStatic := do
  let _ ← Checked.add usizeBound offset layout.entrySize
  if hfits : offset + layout.entrySize ≤ buf.length then
    -- the reference to the structure
    let entry ← Checked.slice buf offset (offset + layout.entrySize)
    let relationship ← Checked.readLe usizeBound entry 0 4
    let size ← Checked.readLe usizeBound entry 4 4
    let out ← countEntry out entry relationship
    let _ ← Checked.add usizeBound offset size
    -- safety against malformed data
    if hsize : size = 0 then .ok out else topologyFrom layout buf (offset + size) out
  else .ok out
termination_by buf.length - offset
decreasing_by
  have hentry := layout.fields_le.trans layout.cache_le
  omega

/-- `collect_topology`, on the buffer that the two calls return, if they succeed. -/
def collectTopology (layout : RelationLayout) (returned : Option Bytes) (out : CpuStatic) :
    Walk CpuStatic :=
  match returned with
  | none => .ok out
  | some buf => topologyFrom layout buf 0 out

/-! ### Every buffer -/

variable {layout : RelationLayout} {buf : Bytes} {out : CpuStatic}

theorem readLe_eq {bs : Bytes} {offset width : ℕ} (h : offset + width ≤ bs.length)
    (hbound : offset + width < usizeBound) :
    (Checked.readLe usizeBound bs offset width : Walk ℕ) =
      .ok (Bytes.ofLe ((bs.drop offset).take width)) := by
  rw [Checked.readLe_eq_ok]
  refine ⟨hbound, Option.map_eq_some_iff.mpr ⟨_, ?_, rfl⟩⟩
  rw [Bytes.slice?_eq_some_iff]
  refine ⟨Nat.le_add_right _ _, h, ?_⟩
  rw [List.drop_take, Nat.add_sub_cancel_left]

theorem ofLe_take_lt (bs : Bytes) (width : ℕ) : Bytes.ofLe (bs.take width) < 256 ^ width := by
  refine (Bytes.ofLe_lt _).trans_le (Nat.pow_le_pow_right (by decide) ?_)
  exact List.length_take_le _ _

theorem exists_countEntry (out : CpuStatic) {entry : Bytes} (h : 16 ≤ entry.length)
    (relationship : ℕ) : ∃ out', countEntry out entry relationship = .ok out' := by
  unfold countEntry
  split_ifs
  · exact ⟨_, rfl⟩
  · exact ⟨_, rfl⟩
  · rw [readLe_eq (by omega) (by decide), Checked.bind_ok, readLe_eq (by omega) (by decide),
      Checked.bind_ok]
    exact ⟨_, rfl⟩
  · exact ⟨_, rfl⟩

/-- The structure that starts at an offset. -/
def entryAt (layout : RelationLayout) (buf : Bytes) (offset : ℕ) : Bytes :=
  (buf.drop offset).take layout.entrySize

/-- A turn of the walk where a whole structure fits. -/
theorem topologyFrom_of_fits {offset : ℕ} (hfits : offset + layout.entrySize ≤ buf.length)
    (hbuf : buf.length < 2 ^ 32) (out : CpuStatic) :
    topologyFrom layout buf offset out = (do
      let size := Bytes.ofLe (((entryAt layout buf offset).drop 4).take 4)
      let out ← countEntry out (entryAt layout buf offset)
        (Bytes.ofLe ((entryAt layout buf offset).take 4))
      if size = 0 then .ok out else topologyFrom layout buf (offset + size) out) := by
  have hsixteen : 16 ≤ layout.entrySize := layout.fields_le.trans layout.cache_le
  have hlength : (entryAt layout buf offset).length = layout.entrySize := by
    rw [entryAt, List.length_take, List.length_drop]
    omega
  have hslice : (Checked.slice buf offset (offset + layout.entrySize) : Walk Bytes) =
      .ok (entryAt layout buf offset) := by
    rw [Checked.slice_eq_ok, Bytes.slice?_eq_some_iff]
    refine ⟨Nat.le_add_right _ _, hfits, ?_⟩
    rw [entryAt, List.drop_take, Nat.add_sub_cancel_left]
  have hsize : Bytes.ofLe (((entryAt layout buf offset).drop 4).take 4) < 2 ^ 32 :=
    (ofLe_take_lt _ 4).trans_eq (by norm_num)
  have hadd : (Checked.add usizeBound offset layout.entrySize : Walk ℕ) =
      .ok (offset + layout.entrySize) := if_pos (by unfold usizeBound; omega)
  have hnext : (Checked.add usizeBound offset
      (Bytes.ofLe (((entryAt layout buf offset).drop 4).take 4)) : Walk ℕ) =
      .ok (offset + Bytes.ofLe (((entryAt layout buf offset).drop 4).take 4)) :=
    if_pos (by unfold usizeBound; omega)
  rw [topologyFrom, hadd, Checked.bind_ok, dif_pos hfits, hslice, Checked.bind_ok,
    readLe_eq (by omega) (by decide), Checked.bind_ok, readLe_eq (by omega) (by decide),
    Checked.bind_ok, List.drop_zero]
  refine bind_congr fun out => ?_
  rw [hnext, Checked.bind_ok]
  rfl

theorem topologyFrom_of_short {offset : ℕ} (hshort : buf.length < offset + layout.entrySize)
    (hbound : offset < 2 ^ 33) (out : CpuStatic) :
    topologyFrom layout buf offset out = .ok out := by
  have hentry := layout.entry_lt
  have hadd : (Checked.add usizeBound offset layout.entrySize : Walk ℕ) =
      .ok (offset + layout.entrySize) := if_pos (by unfold usizeBound; omega)
  rw [topologyFrom, hadd, Checked.bind_ok, dif_neg (by omega)]

theorem exists_topologyFrom (hbuf : buf.length < 2 ^ 32) {offset : ℕ} (hoffset : offset < 2 ^ 33)
    (out : CpuStatic) : ∃ out', topologyFrom layout buf offset out = .ok out' := by
  -- on how much of the buffer is left
  induction hleft : buf.length - offset using Nat.strong_induction_on generalizing offset out with
  | _ left ih =>
    have hsixteen : 16 ≤ layout.entrySize := layout.fields_le.trans layout.cache_le
    by_cases hfits : offset + layout.entrySize ≤ buf.length
    · rw [topologyFrom_of_fits hfits hbuf]
      have hlength : (entryAt layout buf offset).length = layout.entrySize := by
        rw [entryAt, List.length_take, List.length_drop]
        omega
      have hsize : Bytes.ofLe (((entryAt layout buf offset).drop 4).take 4) < 2 ^ 32 :=
        (ofLe_take_lt _ 4).trans_eq (by norm_num)
      obtain ⟨out', hout⟩ := exists_countEntry out (hlength ▸ hsixteen)
        (Bytes.ofLe ((entryAt layout buf offset).take 4))
      dsimp only
      rw [hout, Checked.bind_ok]
      split_ifs
      · exact ⟨_, rfl⟩
      · exact ih _ (by omega) (by omega) out' rfl
    · exact ⟨out, topologyFrom_of_short (by omega) hoffset out⟩

/-- **The walk ends and reads nothing outside the buffer**, whatever the buffer says. -/
theorem exists_collectTopology {returned : Option Bytes}
    (h : ∀ buf ∈ returned, buf.length < 2 ^ 32) (out : CpuStatic) :
    ∃ out', collectTopology layout returned out = .ok out' := by
  cases returned with
  | none => exact ⟨out, rfl⟩
  | some buf => exact exists_topologyFrom (h buf rfl) (by norm_num) out

/-! ### Records -/

namespace Relation

/-- The kind of a record. -/
def kind (r : Bytes) : ℕ := Bytes.ofLe (r.take 4)

/-- The length a record says it has. -/
def size (r : Bytes) : ℕ := Bytes.ofLe ((r.drop 4).take 4)

/-- The level of a cache, from its record. -/
def level (r : Bytes) : ℕ := Bytes.ofLe ((r.drop 8).take 1)

/-- The size of a cache. -/
def cacheSize (r : Bytes) : ℕ := Bytes.ofLe ((r.drop 12).take 4)

/-- A record that says its own length and is as long as its header and its kind need. -/
structure WellFormed (layout : RelationLayout) (r : Bytes) : Prop where
  header : 8 ≤ r.length
  size : size r = r.length
  processor : kind r = RelationProcessorPackage ∨ kind r = RelationProcessorCore →
    layout.processorSize ≤ r.length
  cache : kind r = RelationCache → layout.cacheSize ≤ r.length

/-- What one record adds to the totals. -/
def count (out : CpuStatic) (r : Bytes) : CpuStatic :=
  if kind r = RelationProcessorPackage then { out with sockets := out.sockets + 1 }
  else if kind r = RelationProcessorCore then { out with physicalCores := out.physicalCores + 1 }
  else if kind r = RelationCache then addCache out (level r) (cacheSize r)
  else out

/-- A cache of a level, in KB. -/
def kbOf (n : ℕ) (r : Bytes) : ℕ :=
  if kind r = RelationCache ∧ level r = n then cacheSize r / 1024 else 0

end Relation

/-- Every package and core counted once, and the caches summed per level. -/
def totals (records : List Bytes) : CpuStatic where
  sockets := records.countP fun r => Relation.kind r = RelationProcessorPackage
  physicalCores := records.countP fun r => Relation.kind r = RelationProcessorCore
  l1KbTotal := (records.map (Relation.kbOf 1)).sum
  l2KbTotal := (records.map (Relation.kbOf 2)).sum
  l3KbTotal := (records.map (Relation.kbOf 3)).sum

/-- The records in front of the first one that starts too late. -/
def admitted (layout : RelationLayout) : List Bytes → List Bytes
  | [] => []
  | r :: rest =>
    if layout.entrySize ≤ (r :: rest).flatten.length then r :: admitted layout rest else []

/-- Totals of two parts. -/
def CpuStatic.plus (a b : CpuStatic) : CpuStatic where
  sockets := a.sockets + b.sockets
  physicalCores := a.physicalCores + b.physicalCores
  l1KbTotal := a.l1KbTotal + b.l1KbTotal
  l2KbTotal := a.l2KbTotal + b.l2KbTotal
  l3KbTotal := a.l3KbTotal + b.l3KbTotal

theorem CpuStatic.plus_assoc (a b c : CpuStatic) : (a.plus b).plus c = a.plus (b.plus c) := by
  simp only [CpuStatic.plus, Nat.add_assoc]

theorem totals_nil : totals [] = {} := rfl

theorem totals_append (as bs : List Bytes) : totals (as ++ bs) = (totals as).plus (totals bs) := by
  simp only [totals, CpuStatic.plus, List.countP_append, List.map_append, List.sum_append]

theorem CpuStatic.plus_totals_nil (a : CpuStatic) : a.plus (totals []) = a := rfl

/-- A cache adds to its level, and to nothing else. -/
theorem addCache_eq_plus (out : CpuStatic) (level sizeBytes : ℕ) :
    addCache out level sizeBytes = out.plus
      { l1KbTotal := if level = 1 then sizeBytes / 1024 else 0
        l2KbTotal := if level = 2 then sizeBytes / 1024 else 0
        l3KbTotal := if level = 3 then sizeBytes / 1024 else 0 } := by
  unfold addCache
  split
  · rfl
  · rfl
  · rfl
  · rename_i h1 h2 h3
    rw [if_neg h1, if_neg h2, if_neg h3]
    rfl

/-- A record counts as what it is. -/
theorem count_eq_plus (out : CpuStatic) (r : Bytes) :
    Relation.count out r = out.plus (totals [r]) := by
  by_cases hpackage : Relation.kind r = RelationProcessorPackage
  · simp [Relation.count, totals, CpuStatic.plus, Relation.kbOf, hpackage]
  · by_cases hcore : Relation.kind r = RelationProcessorCore
    · simp [Relation.count, totals, CpuStatic.plus, Relation.kbOf, hcore]
    · by_cases hcache : Relation.kind r = RelationCache
      · have hcount : Relation.count out r =
            addCache out (Relation.level r) (Relation.cacheSize r) := by
          rw [Relation.count, if_neg hpackage, if_neg hcore, if_pos hcache]
        rw [hcount, addCache_eq_plus]
        simp [totals, Relation.kbOf, hcache]
      · simp [Relation.count, totals, CpuStatic.plus, Relation.kbOf, hpackage, hcore, hcache]

theorem entry_drop_take (offset width : ℕ) {r rest : Bytes} {n : ℕ} (hr : offset + width ≤ r.length)
    (hn : offset + width ≤ n) :
    (((r ++ rest).take n).drop offset).take width = (r.drop offset).take width := by
  rw [List.drop_take, List.take_take, List.drop_append_of_le_length (by omega),
    min_eq_left (by omega), List.take_append_of_le_length]
  rw [List.length_drop]
  omega

/-- What the walk makes of a record it takes. -/
theorem countEntry_eq {r rest : Bytes} (h : Relation.WellFormed layout r) (out : CpuStatic)
    (hfits : layout.entrySize ≤ (r ++ rest).length) :
    countEntry out ((r ++ rest).take layout.entrySize) (Relation.kind r) =
      .ok (Relation.count out r) := by
  have hsixteen : 16 ≤ layout.entrySize := layout.fields_le.trans layout.cache_le
  have hlength : ((r ++ rest).take layout.entrySize).length = layout.entrySize :=
    List.length_take_of_le hfits
  unfold countEntry Relation.count
  by_cases hpackage : Relation.kind r = RelationProcessorPackage
  · rw [if_pos hpackage, if_pos hpackage]
  · by_cases hcore : Relation.kind r = RelationProcessorCore
    · rw [if_neg hpackage, if_pos hcore, if_neg hpackage, if_pos hcore]
    · by_cases hcache : Relation.kind r = RelationCache
      · have hr : 16 ≤ r.length := layout.fields_le.trans (h.cache hcache)
        rw [if_neg hpackage, if_neg hcore, if_pos hcache, if_neg hpackage, if_neg hcore,
          if_pos hcache, readLe_eq (by omega) (by decide), Checked.bind_ok,
          readLe_eq (by omega) (by decide), Checked.bind_ok,
          entry_drop_take 8 1 (by omega) (by omega), entry_drop_take 12 4 (by omega) (by omega)]
        rfl
      · rw [if_neg hpackage, if_neg hcore, if_neg hcache, if_neg hpackage, if_neg hcore,
          if_neg hcache]

/-- **The walk counts the admitted records.** -/
theorem topologyFrom_records {records : List Bytes}
    (h : ∀ r ∈ records, Relation.WellFormed layout r) :
    ∀ (before : Bytes) (out : CpuStatic), (before ++ records.flatten).length < 2 ^ 32 →
      topologyFrom layout (before ++ records.flatten) before.length out =
        .ok (out.plus (totals (admitted layout records))) := by
  have hsixteen : 16 ≤ layout.entrySize := layout.fields_le.trans layout.cache_le
  induction records with
  | nil =>
    intro before out hlength
    rw [topologyFrom_of_short]
    · rfl
    · rw [List.flatten_nil, List.append_nil]
      omega
    · rw [List.length_append] at hlength
      omega
  | cons r rest ih =>
    intro before out hlength
    have hr := h r List.mem_cons_self
    have hflatten : before ++ (r :: rest).flatten = before ++ r ++ rest.flatten := by
      rw [List.flatten_cons, List.append_assoc]
    have hbefore : before.length + (r :: rest).flatten.length < 2 ^ 32 := by
      rwa [List.length_append] at hlength
    rw [admitted]
    split
    · rename_i hfits
      have hentry : entryAt layout (before ++ (r :: rest).flatten) before.length =
          (r ++ rest.flatten).take layout.entrySize := by
        rw [entryAt, List.drop_left, List.flatten_cons]
      have hheader := hr.header
      have hkind : Bytes.ofLe (((r ++ rest.flatten).take layout.entrySize).take 4) =
          Relation.kind r := congrArg Bytes.ofLe (entry_drop_take 0 4 (by omega) (by omega))
      have hsize : Bytes.ofLe ((((r ++ rest.flatten).take layout.entrySize).drop 4).take 4) =
          r.length :=
        (congrArg Bytes.ofLe (entry_drop_take 4 4 (by omega) (by omega))).trans hr.size
      rw [topologyFrom_of_fits (by rw [List.length_append]; omega) hlength, hentry]
      dsimp only
      rw [hkind, hsize, countEntry_eq hr out (by rwa [List.flatten_cons] at hfits),
        Checked.bind_ok, if_neg (by omega), hflatten, ← List.length_append,
        ih (fun r hr => h r (List.mem_cons_of_mem _ hr)) _ _ (by rwa [← hflatten]),
        count_eq_plus, CpuStatic.plus_assoc, ← totals_append, List.singleton_append]
    · rename_i hshort
      rw [topologyFrom_of_short]
      · rfl
      · rw [List.length_append]
        omega
      · omega

/-! ### Which records are counted -/

/-- A record that adds to the totals. -/
def Counts (r : Bytes) : Prop :=
  Relation.kind r = RelationProcessorPackage ∨ Relation.kind r = RelationProcessorCore ∨
    (Relation.kind r = RelationCache ∧ Relation.level r ∈ [1, 2, 3] ∧ 1024 ≤ Relation.cacheSize r)

theorem kbOf_eq_zero_iff {n : ℕ} {r : Bytes} : Relation.kbOf n r = 0 ↔
    ¬ (Relation.kind r = RelationCache ∧ Relation.level r = n ∧ 1024 ≤ Relation.cacheSize r) := by
  unfold Relation.kbOf
  split_ifs with h
  · rw [Nat.div_eq_zero_iff]
    simp [h]
  · refine iff_of_true rfl fun hr => h ⟨hr.1, hr.2.1⟩

/-- Records that add nothing leave the totals at zero, and only these do. -/
theorem totals_eq_zero_iff (records : List Bytes) :
    totals records = {} ↔ ∀ r ∈ records, ¬ Counts r := by
  have hrecord : ∀ r : Bytes, ¬ Counts r ↔
      Relation.kind r ≠ RelationProcessorPackage ∧ Relation.kind r ≠ RelationProcessorCore ∧
        Relation.kbOf 1 r = 0 ∧ Relation.kbOf 2 r = 0 ∧ Relation.kbOf 3 r = 0 := by
    intro r
    simp only [kbOf_eq_zero_iff, Counts, List.mem_cons, List.not_mem_nil, or_false]
    tauto
  simp only [hrecord, forall_and, totals, CpuStatic.ext_iff, List.countP_eq_zero,
    List.sum_eq_zero_iff_forall_eq_nat, List.forall_mem_map, decide_eq_true_eq, ne_eq]

theorem plus_eq_self_iff (a b : CpuStatic) : a.plus b = a ↔ b = {} := by
  simp [CpuStatic.plus, CpuStatic.ext_iff]

/-- The admitted records are followed by those that start too late. -/
theorem exists_dropped (layout : RelationLayout) (records : List Bytes) :
    ∃ dropped, records = admitted layout records ++ dropped ∧
      (dropped ≠ [] → dropped.flatten.length < layout.entrySize) := by
  induction records with
  | nil => exact ⟨[], rfl, fun h => absurd rfl h⟩
  | cons r rest ih =>
    rw [admitted]
    split
    · obtain ⟨dropped, heq, hshort⟩ := ih
      exact ⟨dropped, congrArg (r :: ·) heq, hshort⟩
    · rename_i hshort
      exact ⟨r :: rest, rfl, fun _ => not_le.mp hshort⟩

/-- An admitted record starts early enough. -/
theorem admitted_fits {pre post : List Bytes} {r : Bytes} :
    ∀ {records : List Bytes}, admitted layout records = pre ++ r :: post →
      ∃ rest, records = pre ++ r :: rest ∧ layout.entrySize ≤ (r :: rest).flatten.length := by
  induction pre with
  | nil =>
    intro records h
    cases records with
    | nil => cases h
    | cons s rest =>
      rw [admitted] at h
      split at h
      · rename_i hfits
        obtain ⟨rfl, -⟩ := List.cons.inj h
        exact ⟨rest, rfl, hfits⟩
      · cases h
  | cons p pre ih =>
    intro records h
    cases records with
    | nil => cases h
    | cons s rest =>
      rw [admitted] at h
      split at h
      · obtain ⟨rfl, htail⟩ := List.cons.inj h
        obtain ⟨rest', rfl, hfits⟩ := ih htail
        exact ⟨rest', rfl, hfits⟩
      · cases h

/-- Every record that adds to the totals starts at least the size of the structure before the end
of the buffer. -/
def StartsEarly (layout : RelationLayout) (records : List Bytes) : Prop :=
  ∀ pre r post, records = pre ++ r :: post → Counts r →
    layout.entrySize ≤ (r :: post).flatten.length

/-- The records that are left out add nothing exactly if those that add start early. -/
theorem totals_admitted_eq_iff (records : List Bytes) :
    totals (admitted layout records) = totals records ↔ StartsEarly layout records := by
  obtain ⟨dropped, heq, hshort⟩ := exists_dropped layout records
  have htotals : totals records = (totals (admitted layout records)).plus (totals dropped) := by
    conv_lhs => rw [heq]
    exact totals_append _ _
  rw [htotals, eq_comm, plus_eq_self_iff, totals_eq_zero_iff]
  constructor
  · intro hnone pre r post hsplit hcounts
    rcases List.append_eq_append_iff.mp (hsplit.symm.trans heq) with
      ⟨front, hadmitted, hrest⟩ | ⟨front, -, hdropped⟩
    · cases front with
      | nil =>
        -- the record is the first of those that are left out
        exact absurd hcounts (hnone r (by rw [← List.nil_append dropped, ← hrest]; simp))
      | cons s front =>
        obtain ⟨rfl, -⟩ := List.cons.inj hrest
        obtain ⟨rest, hrecords, hfits⟩ := admitted_fits hadmitted
        obtain rfl := (List.cons.inj (List.append_cancel_left (hsplit.symm.trans hrecords))).2
        exact hfits
    · exact absurd hcounts (hnone r (by rw [hdropped]; simp))
  · intro hearly r hr hcounts
    obtain ⟨pre, post, rfl⟩ := List.append_of_mem hr
    have hfits := hearly (admitted layout records ++ pre) r post
      (by rw [List.append_assoc]; exact heq) hcounts
    have hlate := hshort (List.append_ne_nil_of_right_ne_nil _ (List.cons_ne_nil _ _))
    rw [List.flatten_append, List.length_append] at hlate
    omega

theorem plus_left_inj (a b c : CpuStatic) : a.plus b = a.plus c ↔ b = c := by
  simp [CpuStatic.plus, CpuStatic.ext_iff]

/-- **The walk ends without a read outside the buffer, and on well-formed records it counts every
package and core once and sums the caches per level, exactly if each record that adds something
starts at least the size of the structure before the end.** -/
theorem collects_iff (layout : RelationLayout) (out : CpuStatic) :
    (∀ returned : Option Bytes, (∀ buf ∈ returned, buf.length < 2 ^ 32) →
      ∃ out', collectTopology layout returned out = .ok out') ∧
    ∀ records : List Bytes, (∀ r ∈ records, Relation.WellFormed layout r) →
      records.flatten.length < 2 ^ 32 →
      (collectTopology layout (some records.flatten) out = .ok (out.plus (totals records)) ↔
        StartsEarly layout records) := by
  refine ⟨fun returned h => exists_collectTopology h out, fun records hwell hlength => ?_⟩
  have hwalk : collectTopology layout (some records.flatten) out =
      .ok (out.plus (totals (admitted layout records))) :=
    topologyFrom_records hwell [] out hlength
  rw [hwalk, Except.ok.injEq, plus_left_inj, totals_admitted_eq_iff]

/-- A record of a kind and a length, with zeros after the header. -/
def bareRecord (kind length : ℕ) : Bytes :=
  Bytes.toLe 4 kind ++ Bytes.toLe 4 length ++ List.replicate (length - 8) 0

/-- The record of a group. -/
def groupRecord : Bytes := bareRecord 4 80

/-- The record of a core. -/
def coreRecord : Bytes := bareRecord RelationProcessorCore 48

set_option maxRecDepth 4096 in
theorem wellFormed_pair {r : Bytes} (h : r = groupRecord ∨ r = coreRecord) :
    Relation.WellFormed .bits64 r := by
  rcases h with rfl | rfl
  · exact ⟨by decide +kernel, by decide +kernel, by decide +kernel, by decide +kernel⟩
  · exact ⟨by decide +kernel, by decide +kernel, by decide +kernel, by decide +kernel⟩

/-- A core before the record of its group is counted. -/
theorem first_core_counted :
    collectTopology .bits64 (some [coreRecord, groupRecord].flatten) {} =
      .ok { physicalCores := 1 } := by
  have hwell : ∀ r ∈ [coreRecord, groupRecord], Relation.WellFormed .bits64 r :=
    fun r hr => wellFormed_pair (List.mem_pair.mp hr).symm
  have hwalk : collectTopology .bits64 (some [coreRecord, groupRecord].flatten) {} =
      .ok (CpuStatic.plus {} (totals (admitted .bits64 [coreRecord, groupRecord]))) :=
    topologyFrom_records hwell [] {} (by decide +kernel)
  rw [hwalk]
  decide +kernel

/-- A core after the record of its group, with which the buffer ends, is not counted. -/
theorem last_core_lost :
    let records := [groupRecord, coreRecord]
    (∀ r ∈ records, Relation.WellFormed .bits64 r) ∧ (totals records).physicalCores = 1 ∧
      collectTopology .bits64 (some records.flatten) {} = .ok {} := by
  intro records
  have hwell : ∀ r ∈ records, Relation.WellFormed .bits64 r :=
    fun r hr => wellFormed_pair (List.mem_pair.mp hr)
  refine ⟨hwell, by decide +kernel, ?_⟩
  have hwalk : collectTopology .bits64 (some records.flatten) {} =
      .ok (CpuStatic.plus {} (totals (admitted .bits64 records))) :=
    topologyFrom_records hwell [] {} (by decide +kernel)
  rw [hwalk]
  decide +kernel

end Taskman.CpuInfo
