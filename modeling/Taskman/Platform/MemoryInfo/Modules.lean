import Taskman.Platform.MemoryInfo.Records
import Taskman.Platform.Broker.Dispatch
import Mathlib.Algebra.BigOperators.Group.List.Basic
import Mathlib.Algebra.Order.BigOperators.Group.List

/-!
# Memory modules

Of the structures of the firmware the walk takes the memory arrays, with the number of slots, and
the memory devices, with what is known of the module in a slot.

* `readDevice`, `visit`, `ramStaticFromTable` : the code, in which a sum past its type is a panic;
* `sizeStated`, `slotsOf`, `modulesOf` : what the records say;
* `foldlM_visit` : **the loop collects the modules of all records unless the number of slots
  overflows**;
* `Walks`, `Countable` : what the walk should do, and the tables on which it does;
* `walks_iff` : **it does so exactly if both sums are small enough and no populated device ends
  right behind its size**;
* `overflow_of_many_slots` : a table on which it does not.
-/

namespace Taskman.MemoryInfo

open CpuLoad (Target Walk)
open Broker (eqIgnoreAsciiCase)

/-- What is known of the memory modules together. -/
structure RamStatic where
  /-- Physically installed bytes. -/
  installedBytes : ℕ
  /-- Configured speed of the fastest module. -/
  speedMts : ℕ
  /-- Maximum supported speed. -/
  speedMaxMts : ℕ
  slotsUsed : ℕ
  slotsTotal : ℕ
  formFactor : Text
  manufacturer : Text
  partNumber : Text
  deriving DecidableEq

/-- A memory module. -/
structure Module where
  sizeBytes : ℕ
  speedCfg : ℕ
  speedMax : ℕ
  formFactor : Text
  manufacturer : Text
  partNumber : Text
  deriving DecidableEq

/-- 0 and 0xFFFF are unknown, not real speeds. -/
def validSpeed (v : ℕ) : ℕ := if v = 0 ∨ v = 0xFFFF then 0 else v

/-- The name of a form factor. -/
def formFactorLabel (v : ℕ) : Text :=
  if v = 0x03 then "SIMM".toList
  else if v = 0x09 then "DIMM".toList
  else if v = 0x0C ∨ v = 0x12 then "SODIMM".toList
  else if v = 0x0D then "SRIMM".toList
  else if v = 0x0F then "FB-DIMM".toList
  else []

section Reading

variable (t : Target)

/-- A product of a `u64` and two times 1024. -/
def megabytes (n : ℕ) : Walk ℕ := do
  let kb ← Checked.mul (2 ^ 64) n 1024
  Checked.mul (2 ^ 64) kb 1024

/-- The size in the word: megabytes with the flag and, since no module is that small, without it. -/
def wordSizeBytes (d : Bytes) : Walk ℕ := do
  let raw ← Checked.readLe t.bound d 0x0C 2
  if raw &&& 0x8000 ≠ 0 then megabytes (raw &&& 0x7FFF)
  else do
    let asKb ← Checked.mul (2 ^ 64) raw 1024
    if asKb < 128 * 1024 * 1024 then megabytes raw else .ok asKb

/-- `module_size_bytes`: the extended size, which is in megabytes, goes before the word. -/
def moduleSizeBytes (d : Bytes) : Walk ℕ :=
  if 0x20 ≤ d.length then do
    let ext ← Checked.readLe t.bound d 0x1C 4
    if ext &&& 0x7FFFFFFF ≠ 0 then megabytes (ext &&& 0x7FFFFFFF) else wordSizeBytes t d
  else wordSizeBytes t d

/-- A speed, in records that are long enough. -/
def speedAt (d : Bytes) (offset : ℕ) : Walk ℕ :=
  if offset + 2 ≤ d.length then do
    let v ← Checked.readLe t.bound d offset 2
    .ok (validSpeed v)
  else .ok 0

/-- A text, in records that are long enough. -/
def textAt (r : Record) (offset : ℕ) : Walk Text :=
  if offset + 1 ≤ r.data.length then do
    let idx ← Checked.readLe t.bound r.data offset 1
    .ok (r.string idx)
  else .ok []

/-- What is read of a memory device, if there is a module in it. -/
def readDevice (r : Record) : Walk (Option Module) := do
  let sizeRaw ← Checked.readLe t.bound r.data 0x0C 2
  let form ← Checked.readLe t.bound r.data 0x0E 1
  let speedMax ← speedAt t r.data 0x15
  let speedCfg ← speedAt t r.data 0x20
  let manufacturer ← textAt t r 0x17
  let part ← textAt t r 0x1A
  if sizeRaw ≠ 0 ∧ sizeRaw ≠ 0xFFFF then do
    let sizeBytes ← moduleSizeBytes t r.data
    .ok (some
      { sizeBytes
        -- older revisions only fill the maximum
        speedCfg := if 0 < speedCfg then speedCfg else speedMax
        speedMax
        formFactor := formFactorLabel form
        manufacturer
        partNumber := part })
  else .ok none

/-- What the loop has found so far. -/
structure Found where
  modules : List Module := []
  slotsTotal : ℕ := 0

/-- One record. -/
def visit (found : Found) (r : Record) : Walk Found :=
  if r.type = 16 then
    if 0x0F ≤ r.data.length then do
      let slots ← Checked.readLe t.bound r.data 0x0D 2
      let slotsTotal ← Checked.add (2 ^ 32) found.slotsTotal slots
      .ok { found with slotsTotal }
    else .ok found
  else if r.type = 17 then
    if r.data.length < 0x0F then .ok found
    else do
      let device ← readDevice t r
      .ok { found with modules := found.modules ++ device.toList }
  else .ok found

/-- The facts about all modules, with the installed bytes. -/
def Found.summary (found : Found) (installedBytes : ℕ) : RamStatic where
  installedBytes
  speedMts := (found.modules.map Module.speedCfg).foldl max 0
  speedMaxMts := (found.modules.map Module.speedMax).foldl max 0
  slotsUsed := found.modules.length % 2 ^ 32
  slotsTotal := found.slotsTotal
  formFactor :=
    (((found.modules.map Module.formFactor).find? (· ≠ [])).or
      (found.modules.head?.map fun _ => "DIMM".toList)).getD []
  manufacturer :=
    ((found.modules.map Module.manufacturer).find? fun m =>
      m ≠ [] && !eqIgnoreAsciiCase m "unknown".toList).getD []
  partNumber := ((found.modules.map Module.partNumber).find? (· ≠ [])).getD []

/-- The end of `ram_static_from_table`, behind the loop. -/
def summarize (found : Found) : Walk RamStatic := do
  let installedBytes ← (found.modules.map Module.sizeBytes).foldlM (Checked.add (2 ^ 64)) 0
  .ok (found.summary installedBytes)

/-- `ram_static_from_table`. -/
def ramStaticFromTable (table : Bytes) : Walk RamStatic := do
  let recs ← records t table
  let found ← recs.foldlM (visit t) {}
  summarize found

end Reading

/-! ### What a record says -/

/-- The size that a memory device states, in megabytes: the extended size if there is one, or what
the word holds below its flag. -/
def sizeStated (d : Bytes) : ℕ :=
  (if 0x20 ≤ d.length ∧ d.leAt 0x1C 4 % 2 ^ 31 ≠ 0 then d.leAt 0x1C 4 % 2 ^ 31
    else d.leAt 0x0C 2 % 2 ^ 15) * 2 ^ 20

/-- The slots of a memory array. -/
def slotsOf (r : Record) : ℕ :=
  if r.type = 16 ∧ 0x0F ≤ r.data.length then r.data.leAt 0x0D 2 else 0

/-- The record of a memory device with a module in it, up to the form factor. -/
structure Record.Device (r : Record) : Prop where
  type_eq : r.type = 17
  form : 0x0F ≤ r.data.length
  filled : r.data.leAt 0x0C 2 ≠ 0 ∧ r.data.leAt 0x0C 2 ≠ 0xFFFF

instance (r : Record) : Decidable r.Device :=
  decidable_of_iff (r.type = 17 ∧ 0x0F ≤ r.data.length ∧
      r.data.leAt 0x0C 2 ≠ 0 ∧ r.data.leAt 0x0C 2 ≠ 0xFFFF)
    ⟨fun ⟨h, h', h''⟩ => ⟨h, h', h''⟩, fun ⟨h, h', h''⟩ => ⟨h, h', h''⟩⟩

/-- A speed of a module, 0 where its record is too short. -/
def speedOf (d : Bytes) (offset : ℕ) : ℕ :=
  if offset + 2 ≤ d.length then validSpeed (d.leAt offset 2) else 0

/-- A text of a module, empty where its record is too short. -/
def textOf (r : Record) (offset : ℕ) : Text :=
  if offset + 1 ≤ r.data.length then r.string (r.data.leAt offset 1) else []

/-- The module in a memory device. -/
def moduleOf (r : Record) : Module where
  sizeBytes := sizeStated r.data
  speedCfg := if 0 < speedOf r.data 0x20 then speedOf r.data 0x20 else speedOf r.data 0x15
  speedMax := speedOf r.data 0x15
  formFactor := formFactorLabel (r.data.leAt 0x0E 1)
  manufacturer := textOf r 0x17
  partNumber := textOf r 0x1A

/-- The modules of some records, in order. -/
def modulesOf (recs : List Record) : List Module := (recs.filter (·.Device)).map moduleOf

section Reading

variable {t : Target} {d : Bytes} {r : Record}

theorem readLe_field {offset width : ℕ} (h : offset + width ≤ d.length)
    (hsmall : offset + width ≤ 0x100) :
    (Checked.readLe t.bound d offset width : Walk ℕ) = .ok (d.leAt offset width) := by
  have hlarge := t.le_bound
  exact Checked.readLe_eq_leAt h (by omega)

theorem megabytes_eq {n : ℕ} (h : n < 2 ^ 31) : megabytes n = .ok (n * 2 ^ 20) := by
  have hkb : (Checked.mul (2 ^ 64) n 1024 : Walk ℕ) = .ok (n * 1024) := if_pos (by omega)
  have hmb : (Checked.mul (2 ^ 64) (n * 1024) 1024 : Walk ℕ) = .ok (n * 1024 * 1024) :=
    if_pos (by omega)
  rw [megabytes, hkb, Checked.bind_ok, hmb, Nat.mul_assoc]
  rfl

theorem mod_of_and_flag_eq_zero {raw : ℕ} (hraw : raw < 2 ^ 16) (h : raw &&& 0x8000 = 0) :
    raw % 2 ^ 15 = raw := by
  have hbit : raw.testBit 15 = false := by
    rw [← Nat.zero_testBit 15, ← h, Nat.testBit_and,
      show (0x8000 : ℕ).testBit 15 = true by decide, Bool.and_true]
  rw [Nat.testBit_eq_decide_div_mod_eq, decide_eq_false_iff_not] at hbit
  omega

theorem wordSizeBytes_eq (h : 0x0E ≤ d.length) :
    wordSizeBytes t d = .ok (d.leAt 0x0C 2 % 2 ^ 15 * 2 ^ 20) := by
  have hraw := d.leAt_lt 0x0C 2
  have hmod : d.leAt 0x0C 2 &&& 0x7FFF = d.leAt 0x0C 2 % 2 ^ 15 :=
    Nat.and_two_pow_sub_one_eq_mod _ 15
  rw [wordSizeBytes, readLe_field (by omega) (by decide), Checked.bind_ok, hmod]
  split_ifs with hflag
  · exact megabytes_eq (by omega)
  · -- in kilobytes a word is below 128 MB
    have hkb : (Checked.mul (2 ^ 64) (d.leAt 0x0C 2) 1024 : Walk ℕ) = .ok (d.leAt 0x0C 2 * 1024) :=
      if_pos (by omega)
    rw [hkb, Checked.bind_ok, if_pos (by omega), megabytes_eq (by omega),
      mod_of_and_flag_eq_zero (by omega) (not_not.mp hflag)]

theorem moduleSizeBytes_eq (h : 0x0E ≤ d.length) : moduleSizeBytes t d = .ok (sizeStated d) := by
  have hmod : d.leAt 0x1C 4 &&& 0x7FFFFFFF = d.leAt 0x1C 4 % 2 ^ 31 :=
    Nat.and_two_pow_sub_one_eq_mod _ 31
  unfold moduleSizeBytes sizeStated
  by_cases hlong : 0x20 ≤ d.length
  · rw [if_pos hlong, readLe_field hlong (by decide), Checked.bind_ok, hmod]
    split_ifs with hext hboth hboth
    · exact megabytes_eq (Nat.mod_lt _ (by decide))
    · exact absurd ⟨hlong, hext⟩ hboth
    · exact absurd hboth.2 hext
    · exact wordSizeBytes_eq h
  · rw [if_neg hlong, if_neg fun hboth => hlong hboth.1]
    exact wordSizeBytes_eq h

theorem speedAt_eq (d : Bytes) {offset : ℕ} (hsmall : offset + 2 ≤ 0x100) :
    speedAt t d offset = .ok (speedOf d offset) := by
  unfold speedAt speedOf
  split_ifs with hlong
  · rw [readLe_field hlong hsmall, Checked.bind_ok]
  · rfl

theorem textAt_eq (r : Record) {offset : ℕ} (hsmall : offset + 1 ≤ 0x100) :
    textAt t r offset = .ok (textOf r offset) := by
  unfold textAt textOf
  split_ifs with hlong
  · rw [readLe_field hlong hsmall, Checked.bind_ok]
  · rfl

theorem readDevice_eq (htype : r.type = 17) (hform : 0x0F ≤ r.data.length) :
    readDevice t r = .ok (if r.Device then some (moduleOf r) else none) := by
  have hdevice : r.Device ↔ r.data.leAt 0x0C 2 ≠ 0 ∧ r.data.leAt 0x0C 2 ≠ 0xFFFF :=
    ⟨Record.Device.filled, fun h => ⟨htype, hform, h⟩⟩
  rw [readDevice, readLe_field (by omega) (by decide), Checked.bind_ok,
    readLe_field (by omega) (by decide), Checked.bind_ok, speedAt_eq _ (by decide),
    Checked.bind_ok, speedAt_eq _ (by decide), Checked.bind_ok, textAt_eq _ (by decide),
    Checked.bind_ok, textAt_eq _ (by decide), Checked.bind_ok]
  by_cases hfilled : r.data.leAt 0x0C 2 ≠ 0 ∧ r.data.leAt 0x0C 2 ≠ 0xFFFF
  · rw [if_pos hfilled, if_pos (hdevice.mpr hfilled), moduleSizeBytes_eq (by omega),
      Checked.bind_ok]
    rfl
  · rw [if_neg hfilled, if_neg (mt hdevice.mp hfilled)]

theorem toList_ite_moduleOf (r : Record) :
    (if r.Device then some (moduleOf r) else none).toList = modulesOf [r] := by
  by_cases hdevice : r.Device
  · simp [modulesOf, hdevice]
  · simp [modulesOf, hdevice]

theorem modulesOf_of_not_device {r : Record} (h : ¬ r.Device) : modulesOf [r] = [] := by
  rw [← toList_ite_moduleOf, if_neg h]
  rfl

/-- **One record** adds its slots, unless their number overflows, and its module. -/
theorem visit_eq (t : Target) {found : Found} (hslots : found.slotsTotal < 2 ^ 32) (r : Record) :
    visit t found r =
      if found.slotsTotal + slotsOf r < 2 ^ 32 then
        .ok
          { modules := found.modules ++ modulesOf [r]
            slotsTotal := found.slotsTotal + slotsOf r }
      else .error (.panic .overflow) := by
  unfold visit
  by_cases harray : r.type = 16
  · have hdevice : ¬ r.Device := fun h => by have := h.type_eq; omega
    rw [if_pos harray, modulesOf_of_not_device hdevice, List.append_nil]
    by_cases hlong : 0x0F ≤ r.data.length
    · have hof : slotsOf r = r.data.leAt 0x0D 2 := if_pos ⟨harray, hlong⟩
      rw [if_pos hlong, hof, readLe_field hlong (by decide), Checked.bind_ok, Checked.add]
      split_ifs <;> rfl
    · have hof : slotsOf r = 0 := if_neg fun h => hlong h.2
      rw [if_neg hlong, hof, Nat.add_zero, if_pos hslots]
  · have hof : slotsOf r = 0 := if_neg fun h => harray h.1
    rw [if_neg harray, hof, Nat.add_zero, if_pos hslots]
    split_ifs with htype hshort
    · rw [modulesOf_of_not_device fun h => by have := h.form; omega, List.append_nil]
    · rw [readDevice_eq htype (by omega), Checked.bind_ok, toList_ite_moduleOf]
    · rw [modulesOf_of_not_device fun h => htype h.type_eq, List.append_nil]

/-- Checked additions one after the other fail exactly if the sum is too large. -/
theorem foldlM_add {bound : ℕ} (ns : List ℕ) {acc : ℕ} (hacc : acc < bound) :
    (ns.foldlM (Checked.add bound) acc : Walk ℕ) =
      if acc + ns.sum < bound then .ok (acc + ns.sum) else .error (.panic .overflow) := by
  induction ns generalizing acc with
  | nil => rw [List.foldlM_nil, List.sum_nil, Nat.add_zero, if_pos hacc]; rfl
  | cons n ns ih =>
    rw [List.foldlM_cons, List.sum_cons, ← Nat.add_assoc, Checked.add]
    by_cases hn : acc + n < bound
    · rw [if_pos hn, Checked.bind_ok, ih hn]
    · rw [if_neg hn, if_neg (by omega)]
      rfl

/-- **The loop** collects the modules of all records, unless the number of slots overflows. -/
theorem foldlM_visit (t : Target) (recs : List Record) {found : Found}
    (hslots : found.slotsTotal < 2 ^ 32) :
    recs.foldlM (visit t) found =
      if found.slotsTotal + (recs.map slotsOf).sum < 2 ^ 32 then
        .ok
          { modules := found.modules ++ modulesOf recs
            slotsTotal := found.slotsTotal + (recs.map slotsOf).sum }
      else .error (.panic .overflow) := by
  induction recs generalizing found with
  | nil =>
    rw [List.foldlM_nil, List.map_nil, List.sum_nil, Nat.add_zero, if_pos hslots,
      show modulesOf [] = [] from rfl, List.append_nil]
    rfl
  | cons r recs ih =>
    have hmodules : modulesOf (r :: recs) = modulesOf [r] ++ modulesOf recs := by
      rw [modulesOf, ← List.singleton_append, List.filter_append, List.map_append]
      rfl
    rw [List.foldlM_cons, visit_eq t hslots, List.map_cons, List.sum_cons, ← Nat.add_assoc,
      hmodules, ← List.append_assoc]
    by_cases hr : found.slotsTotal + slotsOf r < 2 ^ 32
    · rw [if_pos hr, Checked.bind_ok, ih hr]
    · rw [if_neg hr, if_neg (by omega)]
      rfl

/-- The size that a record adds to what is installed. -/
def sizeCounted (r : Record) : ℕ := if r.Device then sizeStated r.data else 0

theorem sum_map_filter {α : Type} (p : α → Prop) [DecidablePred p] (f : α → ℕ) (l : List α) :
    ((l.filter fun a => p a).map f).sum = (l.map fun a => if p a then f a else 0).sum := by
  rw [List.sum_map_ite, List.sum_map_zero, Nat.add_zero]

theorem sum_sizeBytes_modulesOf (recs : List Record) :
    ((modulesOf recs).map Module.sizeBytes).sum = (recs.map sizeCounted).sum := by
  rw [modulesOf, List.map_map, sum_map_filter]
  rfl

theorem ramStaticFromTable_eq {table : Bytes} (hbound : table.length < t.bound / 2) :
    ramStaticFromTable t table =
      if ((recordsIn table).map slotsOf).sum < 2 ^ 32 then
        summarize
          { modules := modulesOf (recordsIn table)
            slotsTotal := ((recordsIn table).map slotsOf).sum }
      else .error (.panic .overflow) := by
  have hslots : ({} : Found).slotsTotal < 2 ^ 32 := by decide
  rw [ramStaticFromTable, records_eq hbound, Checked.bind_ok, foldlM_visit t _ hslots]
  dsimp only
  rw [Nat.zero_add, List.nil_append]
  split_ifs <;> rfl

theorem summarize_eq (found : Found) :
    summarize found =
      if (found.modules.map Module.sizeBytes).sum < 2 ^ 64 then
        .ok (found.summary (found.modules.map Module.sizeBytes).sum)
      else .error (.panic .overflow) := by
  rw [summarize, foldlM_add _ (by decide), Nat.zero_add]
  split_ifs <;> rfl

/-- The walk ends without an overflow exactly if the sums of the records are small enough. -/
theorem exists_ramStaticFromTable_iff {table : Bytes} (hbound : table.length < t.bound / 2) :
    (∃ out, ramStaticFromTable t table = .ok out) ↔
      ((recordsIn table).map slotsOf).sum < 2 ^ 32 ∧
        ((recordsIn table).map sizeCounted).sum < 2 ^ 64 := by
  rw [ramStaticFromTable_eq hbound, ← sum_sizeBytes_modulesOf]
  split_ifs with hslots
  · rw [summarize_eq, and_iff_right hslots]
    split_ifs with hsizes
    · exact iff_of_true ⟨_, rfl⟩ hsizes
    · exact iff_of_false nofun hsizes
  · exact ⟨nofun, fun h => absurd h.1 hslots⟩

/-- What is installed is the sum of the sizes. -/
theorem installedBytes_eq {table : Bytes} (hbound : table.length < t.bound / 2) {out : RamStatic}
    (h : ramStaticFromTable t table = .ok out) :
    out.installedBytes = ((recordsIn table).map sizeCounted).sum := by
  rw [ramStaticFromTable_eq hbound] at h
  split_ifs at h with hslots
  rw [summarize_eq] at h
  split_ifs at h with hsizes
  rw [← Except.ok.inj h, ← sum_sizeBytes_modulesOf]
  rfl

end Reading

/-! ### Tables of structures -/

/-- A memory device with a module in it: its size is in it, and says neither that it is empty nor
that the size is unknown. -/
structure Structure.Populated (s : Structure) : Prop where
  type_eq : s.formatted.leAt 0 1 = 17
  size_inside : 0x0E ≤ s.formatted.length
  filled : s.formatted.leAt 0x0C 2 ≠ 0 ∧ s.formatted.leAt 0x0C 2 ≠ 0xFFFF

instance (s : Structure) : Decidable s.Populated :=
  decidable_of_iff (s.formatted.leAt 0 1 = 17 ∧ 0x0E ≤ s.formatted.length ∧
      s.formatted.leAt 0x0C 2 ≠ 0 ∧ s.formatted.leAt 0x0C 2 ≠ 0xFFFF)
    ⟨fun ⟨h, h', h''⟩ => ⟨h, h', h''⟩, fun ⟨h, h', h''⟩ => ⟨h, h', h''⟩⟩

/-- What the walk should do with a table: it ends, and of a table of structures it makes their
records in order, reads their texts by number and counts each module once. -/
structure Walks (t : Target) (table : Bytes) : Prop where
  ends : ∃ out, ramStaticFromTable t table = .ok out
  visits : ∀ structures : List Structure, table = structures.flatMap Structure.encode →
    records t table = .ok (structures.map Structure.record)
  texts : ∀ structures : List Structure, table = structures.flatMap Structure.encode →
    ∀ s ∈ structures, ∀ idx, s.record.string idx = s.text idx
  counts : ∀ structures : List Structure, table = structures.flatMap Structure.encode →
    ∀ out, ramStaticFromTable t table = .ok out →
      out.installedBytes =
        ((structures.filter (·.Populated)).map fun s => sizeStated s.formatted).sum

/-- The numbers of a table that the walk adds are small enough, and no module is in a structure that
ends behind its size. -/
structure Countable (table : Bytes) : Prop where
  slots : ((recordsIn table).map slotsOf).sum < 2 ^ 32
  sizes : ((recordsIn table).map sizeCounted).sum < 2 ^ 64
  form : ∀ structures : List Structure, table = structures.flatMap Structure.encode →
    ∀ s ∈ structures, s.Populated → s.formatted.length = 0x0E → sizeStated s.formatted = 0

theorem Structure.device_record_iff {s : Structure} :
    s.record.Device ↔ s.Populated ∧ s.formatted.length ≠ 0x0E :=
  ⟨fun ⟨htype, hform, hfilled⟩ =>
      ⟨⟨htype, (by decide : 0x0E ≤ 0x0F).trans hform, hfilled⟩, (Nat.lt_of_succ_le hform).ne'⟩,
    fun ⟨⟨htype, hinside, hfilled⟩, hne⟩ => ⟨htype, lt_of_le_of_ne hinside hne.symm, hfilled⟩⟩

/-- The size that a structure should add. -/
def Structure.size (s : Structure) : ℕ := if s.Populated then sizeStated s.formatted else 0

theorem Structure.sizeCounted_record_le (s : Structure) : sizeCounted s.record ≤ s.size := by
  unfold sizeCounted Structure.size
  split_ifs with hdevice hpopulated
  · exact le_rfl
  · exact absurd (device_record_iff.mp hdevice).1 hpopulated
  · exact Nat.zero_le _
  · exact le_rfl

theorem Structure.sizeCounted_record_eq_iff {s : Structure} :
    sizeCounted s.record = s.size ↔
      (s.Populated → s.formatted.length = 0x0E → sizeStated s.formatted = 0) := by
  unfold sizeCounted Structure.size
  by_cases hpopulated : s.Populated
  · by_cases hlength : s.formatted.length = 0x0E
    · rw [if_neg fun h => (device_record_iff.mp h).2 hlength, if_pos hpopulated]
      exact ⟨fun h _ _ => h.symm, fun h => (h hpopulated hlength).symm⟩
    · rw [if_pos (device_record_iff.mpr ⟨hpopulated, hlength⟩), if_pos hpopulated]
      exact iff_of_true rfl fun _ h => absurd h hlength
  · rw [if_neg fun h => hpopulated (device_record_iff.mp h).1, if_neg hpopulated]
    exact iff_of_true rfl fun h => absurd h hpopulated

/-- The sums agree exactly if no size is lost. -/
theorem sum_sizeCounted_eq_iff (structures : List Structure) :
    ((structures.map Structure.record).map sizeCounted).sum =
        ((structures.filter (·.Populated)).map fun s => sizeStated s.formatted).sum ↔
      ∀ s ∈ structures, s.Populated → s.formatted.length = 0x0E → sizeStated s.formatted = 0 := by
  rw [List.map_map, sum_map_filter]
  constructor
  · intro hsum s hs
    rw [← Structure.sizeCounted_record_eq_iff]
    by_contra hne
    have hlt := List.sum_lt_sum (sizeCounted ∘ Structure.record) Structure.size
      (fun s _ => s.sizeCounted_record_le) ⟨s, hs, lt_of_le_of_ne s.sizeCounted_record_le hne⟩
    exact hlt.ne hsum
  · intro h
    exact congrArg List.sum (List.map_congr_left fun s hs =>
      Structure.sizeCounted_record_eq_iff.mpr (h s hs))

/-- **The walk over the structures of the firmware** does what it should exactly if its sums are
small enough and no populated device ends behind its size. -/
theorem walks_iff {t : Target} {table : Bytes} (hbound : table.length < t.bound / 2) :
    Walks t table ↔ Countable table := by
  have hrecords (structures : List Structure)
      (h : table = structures.flatMap Structure.encode) :
      recordsIn table = structures.map Structure.record := by
    rw [h, recordsIn_encode]
  constructor
  · intro h
    obtain ⟨hslots, hsizes⟩ := (exists_ramStaticFromTable_iff hbound).mp h.ends
    refine ⟨hslots, hsizes, fun structures henc => ?_⟩
    obtain ⟨out, hout⟩ := h.ends
    have hcounts := h.counts structures henc out hout
    rw [installedBytes_eq hbound hout, hrecords structures henc] at hcounts
    exact (sum_sizeCounted_eq_iff structures).mp hcounts
  · intro h
    constructor
    · exact (exists_ramStaticFromTable_iff hbound).mpr ⟨h.slots, h.sizes⟩
    · intro structures henc
      rw [records_eq hbound, hrecords structures henc]
    · exact fun _ _ s _ idx => s.string_record idx
    · intro structures henc out hout
      rw [installedBytes_eq hbound hout, hrecords structures henc]
      exact (sum_sizeCounted_eq_iff structures).mpr (h.form structures henc)

/-- A memory array with the given number of slots in its last word, as two bytes. -/
def arrayStructure (low high : UInt8) : Structure where
  formatted := [16, 15] ++ List.replicate 11 0 ++ [low, high]
  strings := []
  header_le := by simp
  length_eq := rfl
  ne_nil := nofun
  nul_free := nofun

/-- A module of 16 GB with its manufacturer and its part number. -/
def moduleStructure : Structure where
  formatted :=
    [17, 0x22] ++ List.replicate 10 0 ++ [0, 0x40, 0x0C] ++ List.replicate 6 0 ++ [0xE0, 0x15, 1] ++
      [0, 0, 2] ++ List.replicate 5 0 ++ [0, 0x19]
  strings := [[0x41, 0x43, 0x4D, 0x45], [0x4D, 0x58, 0x2D, 0x31]]
  header_le := by decide
  length_eq := by decide
  ne_nil := by decide
  nul_free := by decide

/-- One module in an array of two slots. -/
def sampleTable : Bytes := [arrayStructure 2 0, moduleStructure].flatMap Structure.encode

theorem walks_sampleTable : Walks .bits64 sampleTable := by
  refine (walks_iff (by decide)).mpr ?_
  have hrecords :
      recordsIn sampleTable = [arrayStructure 2 0, moduleStructure].map Structure.record :=
    recordsIn_encode _
  refine ⟨by rw [hrecords]; decide, by rw [hrecords]; decide +kernel, ?_⟩
  intro structures henc s hs _ hlength
  have hmem : s.record ∈ structures.map Structure.record := List.mem_map_of_mem hs
  rw [← recordsIn_encode, ← henc, hrecords] at hmem
  have hdata : s.formatted.length = s.record.data.length := rfl
  rw [List.map_cons, List.map_singleton, List.mem_cons, List.mem_singleton] at hmem
  rw [hdata] at hlength
  obtain h | h := hmem <;> rw [h] at hlength <;> exact absurd hlength (by decide)

/-- So many slots that their number does not fit into 32 bits. -/
def manySlots : Bytes := (List.replicate 65538 (arrayStructure 0xFF 0xFF)).flatMap Structure.encode

theorem length_manySlots : manySlots.length = 65538 * 17 := by
  rw [manySlots, List.length_flatMap, List.map_replicate, List.sum_replicate]
  rfl

/-- Firmware that announces too many slots makes the walk overflow. -/
theorem overflow_of_many_slots :
    ¬ ∀ (t : Target) (table : Bytes), table.length < t.bound / 2 → Walks t table := by
  intro h
  have hbound : manySlots.length < Target.bound .bits64 / 2 := by
    rw [length_manySlots]
    decide
  have hslots := ((exists_ramStaticFromTable_iff hbound).mp (h .bits64 manySlots hbound).ends).1
  rw [manySlots, recordsIn_encode, List.map_replicate, List.map_replicate,
    List.sum_replicate] at hslots
  exact absurd hslots (by decide)

end Taskman.MemoryInfo
