import Taskman.Platform.CpuLoad.Chain
import Mathlib.Data.List.ReduceOption

/-!
# Records of the cores

`parse_cores` reads the kernel's answer about the cores in two ways, as packed records of 24 bytes
and as one record for each core, and takes the second one unless the first one has more records that
make sense.

* `parseCores` : both readings, and the choice;
* `recordCore` : the counters that a record says;
* `parseCores_eq_ok` : the choice, on the slots of the two layouts;
* `parseCores_records` : **uniform records are read as the counters of each core, unless the packed
  reading makes more sense**.
-/

namespace Taskman.CpuLoad

open Checked (agree_ok agree_add agree_mul)

/-! ### The readings -/

section Readings

variable (t : Target) (buf : Bytes)

/-- One core of the packed reading. -/
def packedCore (r : ℕ) : Walk CoreRaw := do
  let base ← Checked.mul t.bound r 24
  let idle ← readI64 t buf base 0
  let kernel ← readI64 t buf base 8
  let user ← readI64 t buf base 16
  .ok { idle, kernel, user }

/-- DPC and interrupt time of a record that is wide enough. -/
def readServicing (stride base : ℕ) : Walk (Option ℤ) :=
  if 40 ≤ stride then do
    let dpc ← readI64 t buf base 24
    let interrupt ← readI64 t buf base 32
    .ok (some (min (saturatingAdd (nonneg dpc) (nonneg interrupt)) (2 ^ 63 - 1) : ℕ))
  else .ok none

/-- One core of the reading with one record for each core. -/
def stridedCore (written stride r : ℕ) : Walk (Option CoreRaw) := do
  let base ← Checked.mul t.bound r stride
  let stop ← Checked.add t.bound base 24
  if written < stop then .ok none
  else do
    let idle ← readI64 t buf base 0
    let kernel ← readI64 t buf base 8
    let user ← readI64 t buf base 16
    let servicing ← readServicing t buf stride base
    .ok (some { idle, kernel, user, servicing })

/-- The reading with one record for each core, if the answer divides into such records. -/
def stridedCores (written nbCpu : ℕ) : Walk (Option (List CoreRaw)) :=
  if written % nbCpu = 0 ∧ 24 ≤ written / nbCpu then do
    let cores ← (List.range nbCpu).mapM (stridedCore t buf written (written / nbCpu))
    .ok (some cores.reduceOption)
  else .ok none

/-- A record makes sense: kernel time includes idle time. -/
def CoreRaw.Sane (c : CoreRaw) : Prop :=
  0 ≤ c.idle ∧ 0 ≤ c.user ∧ 0 ≤ c.kernel ∧ c.idle ≤ c.kernel

instance (c : CoreRaw) : Decidable c.Sane := inferInstanceAs (Decidable (_ ∧ _))

/-- How many records make sense. -/
def sane (cores : List CoreRaw) : ℕ := cores.countP (·.Sane)

/-- Of the two readings, the packed one is taken only if more of its records make sense. -/
def chooseCores (packed : List CoreRaw) (strided : Option (List CoreRaw)) :
    Option (List CoreRaw) :=
  if strided.isSome ∧ sane packed ≤ (strided.map sane).getD 0 then strided
  else if packed ≠ [] then some packed
  else strided

/-- `parse_cores`. -/
def parseCores (written nbCpu : ℕ) : Walk (Option (List CoreRaw)) :=
  if written < 24 ∨ buf.length < written then .ok none
  else do
    let packed ← (List.range (min (written / 24) nbCpu)).mapM (packedCore t buf)
    let strided ← stridedCores t buf written nbCpu
    .ok (chooseCores packed strided)

end Readings

/-! ### The counters of a record -/

/-- The signed number at an offset. -/
def i64At (record : Bytes) (offset : ℕ) : ℤ :=
  (Bytes.ofLe ((record.drop offset).take 8) : ℤ).bmod (2 ^ 64)

/-- The counters that a record says. -/
def recordCore (record : Bytes) : CoreRaw where
  idle := i64At record 0
  kernel := i64At record 8
  user := i64At record 16
  servicing :=
    if 40 ≤ record.length then
      some (min (saturatingAdd (nonneg (i64At record 24)) (nonneg (i64At record 32))) (2 ^ 63 - 1) :
        ℕ)
    else none

/-- The slot of one record in a layout of records of one width. -/
def slot (buf : Bytes) (width index : ℕ) : Bytes := (buf.drop (index * width)).take width

variable {t : Target} {buf : Bytes} {written nbCpu : ℕ}

theorem length_slot {width index : ℕ} (h : index * width + width ≤ buf.length) :
    (slot buf width index).length = width := by
  rw [slot, List.length_take, List.length_drop]
  omega

theorem readI64_slot {width index field : ℕ} (hfield : field + 8 ≤ width)
    (hfits : index * width + width ≤ written) (hlen : written ≤ buf.length)
    (hbound : written < t.bound) :
    readI64 t buf (index * width) field = .ok (i64At (slot buf width index) field) := by
  have hslice : (Checked.readLe t.bound buf (index * width + field) 8 : Walk ℕ) =
      .ok (Bytes.ofLe (((slot buf width index).drop field).take 8)) := by
    rw [Checked.readLe_eq_ok]
    refine ⟨by omega, Option.map_eq_some_iff.mpr ⟨_, ?_, rfl⟩⟩
    rw [Bytes.slice?_eq_some_iff]
    refine ⟨by omega, by omega, ?_⟩
    rw [slot, List.drop_take, List.drop_drop, List.take_take, List.drop_take]
    congr 1
    omega
  have hadd : (Checked.add t.bound (index * width) field : Walk ℕ) = .ok (index * width + field) :=
    if_pos (by omega)
  rw [readI64, hadd, Checked.bind_ok, hslice]
  exact Checked.bind_ok _ _

/-- One core of the packed reading is what the slot of 24 bytes says. -/
theorem packedCore_eq {r : ℕ} (hfits : r * 24 + 24 ≤ written) (hlen : written ≤ buf.length)
    (hbound : written < t.bound) : packedCore t buf r = .ok (recordCore (slot buf 24 r)) := by
  have hmul : (Checked.mul t.bound r 24 : Walk ℕ) = .ok (r * 24) := if_pos (by omega)
  unfold packedCore
  rw [hmul, Checked.bind_ok, readI64_slot (by omega) hfits hlen hbound, Checked.bind_ok,
    readI64_slot (by omega) hfits hlen hbound, Checked.bind_ok,
    readI64_slot (by omega) hfits hlen hbound, Checked.bind_ok, recordCore,
    length_slot (by omega), if_neg (by omega)]

/-- One core of the other reading is what its slot says. -/
theorem stridedCore_eq {stride r : ℕ} (hstride : 24 ≤ stride)
    (hfits : r * stride + stride ≤ written) (hlen : written ≤ buf.length)
    (hbound : written < t.bound) :
    stridedCore t buf written stride r = .ok (some (recordCore (slot buf stride r))) := by
  have hmul : (Checked.mul t.bound r stride : Walk ℕ) = .ok (r * stride) := if_pos (by omega)
  have hadd : (Checked.add t.bound (r * stride) 24 : Walk ℕ) = .ok (r * stride + 24) :=
    if_pos (by omega)
  have hservicing : readServicing t buf stride (r * stride) =
      .ok (recordCore (slot buf stride r)).servicing := by
    unfold readServicing recordCore
    dsimp only
    rw [length_slot (by omega)]
    split_ifs
    · rw [readI64_slot (by omega) hfits hlen hbound, Checked.bind_ok,
        readI64_slot (by omega) hfits hlen hbound, Checked.bind_ok]
    · rfl
  unfold stridedCore
  rw [hmul, Checked.bind_ok, hadd, Checked.bind_ok, if_neg (by omega),
    readI64_slot (by omega) hfits hlen hbound, Checked.bind_ok,
    readI64_slot (by omega) hfits hlen hbound, Checked.bind_ok,
    readI64_slot (by omega) hfits hlen hbound, Checked.bind_ok, hservicing, Checked.bind_ok]
  rfl

/-! ### The choice -/

/-- The cores of a layout of `count` slots. -/
def slotCores (buf : Bytes) (width count : ℕ) : List CoreRaw :=
  (List.range count).map fun index => recordCore (slot buf width index)

theorem slot_fits {width count index : ℕ} (hindex : index ∈ List.range count)
    (hfits : count * width ≤ written) : index * width + width ≤ written := by
  have hle : (index + 1) * width ≤ count * width :=
    Nat.mul_le_mul_right width (List.mem_range.mp hindex)
  rw [Nat.succ_mul] at hle
  omega

theorem stridedCores_eq (hlen : written ≤ buf.length) (hbound : written < t.bound) :
    stridedCores t buf written nbCpu =
      .ok (if written % nbCpu = 0 ∧ 24 ≤ written / nbCpu then
        some (slotCores buf (written / nbCpu) nbCpu) else none) := by
  unfold stridedCores
  split_ifs with hdivides
  · obtain ⟨-, hstride⟩ := hdivides
    have hfits : nbCpu * (written / nbCpu) ≤ written := Nat.mul_div_le written nbCpu
    rw [Checked.mapM_eq_ok_of fun index hindex =>
      stridedCore_eq hstride (slot_fits hindex hfits) hlen hbound, Checked.bind_ok]
    refine congrArg (fun cores => Except.ok (some cores)) ?_
    rw [List.reduceOption, List.filterMap_map]
    exact congrFun List.filterMap_eq_map _
  · rfl

/-- **The choice**, on the slots of the two layouts. -/
theorem parseCores_eq (h24 : 24 ≤ written) (hlen : written ≤ buf.length)
    (hbound : written < t.bound) :
    parseCores t buf written nbCpu =
      .ok (chooseCores (slotCores buf 24 (min (written / 24) nbCpu))
        (if written % nbCpu = 0 ∧ 24 ≤ written / nbCpu then
          some (slotCores buf (written / nbCpu) nbCpu) else none)) := by
  have hfits : min (written / 24) nbCpu * 24 ≤ written :=
    (Nat.mul_le_mul_right 24 (min_le_left _ _)).trans (Nat.div_mul_le_self written 24)
  unfold parseCores
  rw [if_neg (by omega), Checked.mapM_eq_ok_of fun index hindex =>
    packedCore_eq (slot_fits hindex hfits) hlen hbound, Checked.bind_ok,
    stridedCores_eq hlen hbound, Checked.bind_ok]
  rfl

theorem eq_or_eq_of_chooseCores {packed cores : List CoreRaw} {strided : Option (List CoreRaw)}
    (h : chooseCores packed strided = some cores) : strided = some cores ∨ packed = cores := by
  unfold chooseCores at h
  split_ifs at h
  · exact Or.inl h
  · exact Or.inr (Option.some.inj h)
  · exact Or.inl h

theorem parseCores_of_short (h : written < 24 ∨ buf.length < written) :
    parseCores t buf written nbCpu = .ok none := if_pos h

/-- **`parse_cores` reads nothing but what was written**, and it does not panic. -/
theorem agree_parseCores (hbound : written < t.bound) :
    Checked.Agree (parseCores t (buf.take written) written nbCpu)
      (parseCores t buf written nbCpu) := by
  by_cases hshort : written < 24 ∨ buf.length < written
  · have htake : written < 24 ∨ (buf.take written).length < written := by
      rw [List.length_take]
      omega
    rw [parseCores_of_short hshort, parseCores_of_short htake]
    exact agree_ok none
  · have htake : written ≤ (buf.take written).length := by
      rw [List.length_take]
      omega
    -- a slot that fits in the written bytes says the same before and after the cut
    have hslots : ∀ width count, count * width ≤ written →
        slotCores (buf.take written) width count = slotCores buf width count := by
      intro width count hfits
      refine List.map_congr_left fun index hindex => congrArg recordCore ?_
      have hend := slot_fits hindex hfits
      rw [slot, slot, List.drop_take, List.take_take, min_eq_left (by omega)]
    rw [parseCores_eq (by omega) htake hbound, parseCores_eq (by omega) (by omega) hbound,
      hslots _ _ (Nat.mul_div_le written nbCpu),
      hslots 24 _ ((Nat.mul_le_mul_right 24 (min_le_left _ _)).trans
        (Nat.div_mul_le_self written 24))]
    exact agree_ok _

/-- Each core is read of one slot, in a layout of records of one width, at least the packed one. -/
theorem slots_of_parseCores (hbound : written < t.bound) {cores : List CoreRaw}
    (h : parseCores t buf written nbCpu = .ok (some cores)) :
    ∃ width count, 24 ≤ width ∧ count * width ≤ written ∧
      (width = 24 ∨ nbCpu * width = written ∧ count = nbCpu) ∧
      cores = slotCores buf width count := by
  by_cases hshort : written < 24 ∨ buf.length < written
  · rw [parseCores_of_short hshort] at h
    cases h
  rw [parseCores_eq (by omega) (by omega) hbound] at h
  have hpacked : min (written / 24) nbCpu * 24 ≤ written :=
    (Nat.mul_le_mul_right 24 (min_le_left _ _)).trans (Nat.div_mul_le_self written 24)
  have hstrided : ∀ cores, (if written % nbCpu = 0 ∧ 24 ≤ written / nbCpu then
      some (slotCores buf (written / nbCpu) nbCpu) else none) = some cores →
      ∃ width count, 24 ≤ width ∧ count * width ≤ written ∧
        (width = 24 ∨ nbCpu * width = written ∧ count = nbCpu) ∧
        cores = slotCores buf width count := by
    intro cores hcores
    obtain ⟨⟨hdivides, hstride⟩, hcores⟩ := Option.ite_none_right_eq_some.mp hcores
    exact ⟨written / nbCpu, nbCpu, hstride, Nat.mul_div_le written nbCpu,
      Or.inr ⟨Nat.mul_div_cancel' (Nat.dvd_of_mod_eq_zero hdivides), rfl⟩,
      (Option.some.inj hcores).symm⟩
  rcases eq_or_eq_of_chooseCores (Except.ok.inj h) with hcores | hcores
  · exact hstrided cores hcores
  · exact ⟨24, _, le_rfl, hpacked, Or.inl rfl, hcores.symm⟩

/-! ### Uniform records -/

/-- Records of one width, at least the packed one, and at least one of them. -/
structure Uniform (records : List Bytes) (stride : ℕ) : Prop where
  ne_nil : records ≠ []
  length : ∀ record ∈ records, record.length = stride
  wide : 24 ≤ stride

variable {records : List Bytes} {stride : ℕ}

theorem length_flatten_of_forall (h : ∀ record ∈ records, record.length = stride) :
    records.flatten.length = records.length * stride := by
  rw [List.length_flatten, List.map_congr_left h, List.map_const',
    List.sum_replicate_nat]

/-- The slots of records of one width are the records. -/
theorem slot_flatten (h : ∀ record ∈ records, record.length = stride) (rest : Bytes) {index : ℕ}
    (hindex : index < records.length) :
    slot (records.flatten ++ rest) stride index = records[index] := by
  induction records generalizing index with
  | nil => cases hindex
  | cons record records ih =>
    have hlength := h record List.mem_cons_self
    rw [List.flatten_cons, List.append_assoc]
    cases index with
    | zero =>
      rw [slot, Nat.zero_mul, List.drop_zero, List.take_left' hlength]
      rfl
    | succ index =>
      have hdrop : (record ++ (records.flatten ++ rest)).drop ((index + 1) * stride) =
          (records.flatten ++ rest).drop (index * stride) := by
        rw [Nat.succ_mul, Nat.add_comm, ← List.drop_drop, List.drop_left' hlength]
      rw [slot, hdrop]
      exact ih (fun other hother => h other (List.mem_cons_of_mem record hother))
        (Nat.lt_of_succ_lt_succ hindex)

theorem slotCores_flatten (h : ∀ record ∈ records, record.length = stride) (rest : Bytes) :
    slotCores (records.flatten ++ rest) stride records.length = records.map recordCore := by
  refine List.ext_getElem (by simp [slotCores]) fun index hindex _ => ?_
  have hlt : index < records.length := by simpa [slotCores] using hindex
  simp [slotCores, slot_flatten h rest hlt]

/-- The packed reading makes no more sense than the records. -/
def PackedNoSaner (records : List Bytes) (rest : Bytes) : Prop :=
  sane (slotCores (records.flatten ++ rest) 24 records.length) ≤ sane (records.map recordCore)

theorem packedNoSaner_of_sane (h : ∀ record ∈ records, (recordCore record).Sane) (rest : Bytes) :
    PackedNoSaner records rest := by
  have hall : sane (records.map recordCore) = records.length := by
    rw [sane, List.countP_eq_length.mpr (by simpa using h), List.length_map]
  have hle : sane (slotCores (records.flatten ++ rest) 24 records.length) ≤ records.length :=
    List.countP_le_length.trans (by simp [slotCores])
  exact hle.trans_eq hall.symm

/-- **Uniform records are read as the counters of each core, in order.** -/
theorem Uniform.parseCores (h : Uniform records stride) (rest : Bytes)
    (hbound : records.length * stride < t.bound) (hsane : PackedNoSaner records rest) :
    parseCores t (records.flatten ++ rest) (records.length * stride) records.length =
      .ok (some (records.map recordCore)) := by
  have hpos : 0 < records.length := List.length_pos_iff.mpr h.ne_nil
  have hwide : records.length * 24 ≤ records.length * stride := Nat.mul_le_mul_left _ h.wide
  have hcount : min (records.length * stride / 24) records.length = records.length :=
    min_eq_right ((Nat.le_div_iff_mul_le (by norm_num)).mpr hwide)
  have hlen : records.length * stride ≤ (records.flatten ++ rest).length := by
    rw [List.length_append, length_flatten_of_forall h.length]
    omega
  rw [parseCores_eq (by omega) hlen hbound, hcount, Nat.mul_div_cancel_left stride hpos,
    Nat.mul_mod_right, if_pos ⟨rfl, h.wide⟩, slotCores_flatten h.length, chooseCores,
    if_pos ⟨rfl, hsane⟩]

/-- **`parse_cores` on every buffer, and on uniform records.**  It stays within the written bytes
and reads each core of one slot of one layout; uniform records are read as the counters of each
core, unless more packed slots than records make sense. -/
theorem parseCores_reads_records {t : Target} (buf : Bytes) {written : ℕ} (nbCpu : ℕ)
    (hbound : written < t.bound) :
    Checked.Agree (parseCores t (buf.take written) written nbCpu) (parseCores t buf written nbCpu) ∧
      (∀ cores, parseCores t buf written nbCpu = .ok (some cores) →
        ∃ width count, 24 ≤ width ∧ count * width ≤ written ∧
          (width = 24 ∨ nbCpu * width = written ∧ count = nbCpu) ∧
          cores = slotCores buf width count) ∧
      ∀ records stride rest, Uniform records stride → PackedNoSaner records rest →
        buf = records.flatten ++ rest → written = records.length * stride →
        nbCpu = records.length →
        parseCores t buf written nbCpu = .ok (some (records.map recordCore)) := by
  refine ⟨agree_parseCores hbound, fun cores => slots_of_parseCores hbound, ?_⟩
  rintro records stride rest h hsane rfl rfl rfl
  exact h.parseCores rest hbound hsane

/-- A record of idle, kernel, user, DPC and interrupt time. -/
def coreRecord (idle kernel user dpc interrupt : ℕ) : Bytes :=
  [idle, kernel, user, dpc, interrupt].flatMap (Bytes.toLe 8)

/-- Two cores that make sense. -/
def saneCores : List Bytes := [coreRecord 100 400 50 3 7, coreRecord 200 900 80 4 4]

theorem uniform_saneCores : Uniform saneCores 40 := ⟨by decide, by decide, by decide⟩

theorem parseCores_reads_records_two :
    parseCores .bits64 (saneCores.flatten ++ [1]) 80 2 = .ok (some (saneCores.map recordCore)) :=
  (parseCores_reads_records (t := .bits64) (saneCores.flatten ++ [1]) 2 (by decide)).2.2 saneCores
    40 [1] uniform_saneCores (packedNoSaner_of_sane (by decide +kernel) [1]) rfl rfl rfl

/-- Two cores, of which the second has more idle time than kernel time. -/
def idleCores : List Bytes := [coreRecord 0 0 0 0 0, coreRecord 1 0 0 0 0]

/-- The second core that is returned has the end of the first record for its idle and kernel time,
and the idle time of the second record for its user time. -/
theorem not_reads_every_record :
    ¬ ∀ (records : List Bytes) (stride : ℕ), Uniform records stride →
      parseCores .bits64 records.flatten (records.length * stride) records.length =
        .ok (some (records.map recordCore)) := by
  intro h
  have huser : (parseCores .bits64 idleCores.flatten 80 2).toOption.join.map
      (·.map CoreRaw.user) = some [0, 1] := by decide +kernel
  have hparse := h idleCores 40 ⟨by decide, by decide, by decide⟩
  have hrecords : (idleCores.map recordCore).map CoreRaw.user = [0, 0] := by decide +kernel
  have hcores : parseCores .bits64 idleCores.flatten 80 2 =
      .ok (some (idleCores.map recordCore)) := hparse
  rw [hcores] at huser
  have heq : (idleCores.map recordCore).map CoreRaw.user = [0, 1] := Option.some.inj huser
  rw [hrecords] at heq
  exact absurd heq (by decide)

end Taskman.CpuLoad
