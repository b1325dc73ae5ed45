import Taskman.Platform.PerfCounters.Reads
import Mathlib.Data.List.Basic
import Mathlib.Tactic.IntervalCases

/-!
# Instance names are read back

The names of the instances of an engine are written by the system: the id of a process, the two
halves of a LUID in hexadecimal, the numbers of the card and of the engine where there are any, and
the type of the engine, which may be any text.

* `GpuInstance` : what such a name is written from;
* `GpuInstance.name` : the name;
* `WritesHex t n` : `t` is a hexadecimal numeral of `n`, in any case and of any width;
* `GpuInstance.parse_name` : **the fields are read back from the name**, whatever the type holds.
-/

namespace Taskman

open Gpu (AdapterLuid)

/-! ### Names -/

/-- What the name of an instance is written from. -/
structure GpuInstance where
  pid : ℕ
  luid : AdapterLuid
  physIndex : Option ℕ
  engineIndex : Option ℕ
  engineType : Text
  pid_lt : pid < 2 ^ 32
  high_ge : -2 ^ 31 ≤ luid.high
  high_lt : luid.high < 2 ^ 31
  low_lt : luid.low < 2 ^ 32
  phys_lt : ∀ n ∈ physIndex, n < 2 ^ 32
  engine_lt : ∀ n ∈ engineIndex, n < 2 ^ 32

/-- A text is a hexadecimal numeral of a number: its digits in either case, after any number of
zeros. -/
def WritesHex (t : Text) (n : ℕ) : Prop :=
  ∃ zeros, t.toAsciiLowercase = List.replicate zeros '0' ++ Nat.toDigits 16 n

/-- The mark in front of a hexadecimal numeral. -/
def HEX_MARK : Text := "0x".toList

/-- A field that may be absent, with its number. -/
def optionalField (field : Text) (number : Option ℕ) : List Text :=
  number.elim [] fun n => [field, Text.digits n]

namespace GpuInstance

/-- The bits of the high part, which is signed. -/
def highBits (g : GpuInstance) : ℕ := (g.luid.high % 2 ^ 32).toNat

/-- The parts of the name, with the halves of the LUID written as two numerals. -/
def parts (g : GpuInstance) (hi lo : Text) : List Text :=
  [FIELD_PID, Text.digits g.pid, FIELD_LUID, HEX_MARK ++ hi, HEX_MARK ++ lo] ++
    optionalField FIELD_PHYS g.physIndex ++ optionalField FIELD_ENG g.engineIndex ++
    [FIELD_ENGTYPE, g.engineType]

/-- The name. -/
def name (g : GpuInstance) (hi lo : Text) : Text := ['_'].intercalate (g.parts hi lo)

/-- The fields of the name. -/
def fields (g : GpuInstance) : ParsedGpuInstance where
  pid := some g.pid
  luid := some g.luid
  physIndex := g.physIndex
  engineIndex := g.engineIndex
  engineType := some g.engineType

end GpuInstance

/-! ### Hexadecimal numerals -/

theorem hexValue_toLower (c : Char) : hexValue c.toLower = hexValue c := by
  by_cases hupper : c.val ≥ 'A'.val ∧ c.val ≤ 'Z'.val
  · have hlo : 65 ≤ c.toNat := hupper.1
    have hhi : c.toNat ≤ 90 := hupper.2
    rw [← Char.ofNat_toNat c]
    generalize c.toNat = n at hlo hhi
    interval_cases n <;> rfl
  · have hsame : c.toLower = c := dif_neg hupper
    rw [hsame]

theorem hexValue_digitChar {n : ℕ} (h : n < 16) : hexValue n.digitChar = some n := by
  interval_cases n <;> rfl

/-- The digits of a numeral in lower case. -/
theorem exists_mapM_toDigits (n : ℕ) : ∃ ds, (Nat.toDigits 16 n).mapM hexValue = some ds ∧
    ds ≠ [] ∧ ds.foldl (fun n d => n * 16 + d) 0 = n := by
  induction n using Nat.strong_induction_on with
  | _ n ih =>
    rcases Nat.lt_or_ge n 16 with hlt | hge
    · refine ⟨[n], ?_, List.cons_ne_nil _ _, by simp⟩
      rw [Nat.toDigits_of_lt_base hlt]
      simp [hexValue_digitChar hlt]
    · obtain ⟨ds, hds, -, hvalue⟩ := ih (n / 16) (by omega)
      refine ⟨ds ++ [n % 16], ?_, by simp, ?_⟩
      · rw [Nat.toDigits_of_base_le (by norm_num) hge, List.mapM_append, hds]
        simp [hexValue_digitChar (Nat.mod_lt n (by norm_num))]
      · rw [List.foldl_append, hvalue]
        simp only [List.foldl_cons, List.foldl_nil]
        omega

theorem mapM_replicate_zero (zeros : ℕ) :
    (List.replicate zeros '0').mapM hexValue = some (List.replicate zeros 0) := by
  induction zeros with
  | zero => rfl
  | succ zeros ih =>
    rw [List.replicate_succ, List.mapM_cons, ih]
    rfl

theorem foldl_replicate_zero (zeros : ℕ) :
    (List.replicate zeros 0).foldl (fun n d => n * 16 + d) 0 = 0 := by
  induction zeros with
  | zero => rfl
  | succ zeros ih => rw [List.replicate_succ, List.foldl_cons, ih]

/-- The digits of a numeral, whatever its case and its width. -/
theorem WritesHex.exists_mapM {t : Text} {n : ℕ} (h : WritesHex t n) :
    ∃ ds, t.mapM hexValue = some ds ∧ ds ≠ [] ∧ ds.foldl (fun n d => n * 16 + d) 0 = n := by
  obtain ⟨zeros, ht⟩ := h
  obtain ⟨ds, hds, hne, hvalue⟩ := exists_mapM_toDigits n
  have hlower : t.toAsciiLowercase.mapM hexValue = t.mapM hexValue := by
    rw [Text.toAsciiLowercase, List.mapM_map]
    exact congrArg (fun f => t.mapM f) (funext hexValue_toLower)
  refine ⟨List.replicate zeros 0 ++ ds, ?_, ?_, ?_⟩
  · rw [← hlower, ht, List.mapM_append, mapM_replicate_zero, hds]
    rfl
  · exact List.append_ne_nil_of_right_ne_nil _ hne
  · rw [List.foldl_append, foldl_replicate_zero, hvalue]

/-- What all digits are read of has only digits. -/
theorem hexValue_ne_none {t : Text} {ds : List ℕ} (h : t.mapM hexValue = some ds) {c : Char}
    (hc : c ∈ t) : hexValue c ≠ none := by
  induction t generalizing ds with
  | nil => cases hc
  | cons a t ih =>
    rw [List.mapM_cons] at h
    obtain ⟨d, hd, hrest⟩ := Option.bind_eq_some_iff.mp h
    obtain ⟨ds', hds', -⟩ := Option.bind_eq_some_iff.mp hrest
    rcases List.mem_cons.mp hc with rfl | hc
    · rw [hd]
      exact Option.some_ne_none d
    · exact ih hds' hc

theorem trimHexMarks_mark {t : Text} (h : 'x' ∉ t) : trimHexMarks (HEX_MARK ++ t) = t := by
  have hmark : trimHexMarks (HEX_MARK ++ t) = trimHexMarks t := trimHexMarks.eq_1 t
  rw [hmark, trimHexMarks]
  rintro u rfl
  exact h (List.mem_cons_of_mem _ List.mem_cons_self)

/-- **A hexadecimal numeral is read back.** -/
theorem WritesHex.parseHex {t : Text} {n : ℕ} (h : WritesHex t n) (hn : n < 2 ^ 32) :
    parseHex (HEX_MARK ++ t) = some n := by
  obtain ⟨ds, hds, hne, hvalue⟩ := h.exists_mapM
  have hx : 'x' ∉ t := fun hx => hexValue_ne_none hds hx rfl
  have hplus : Text.stripPlus t = t := by
    rw [Text.stripPlus]
    rintro u rfl
    exact hexValue_ne_none hds List.mem_cons_self rfl
  rw [Taskman.parseHex, trimHexMarks_mark hx, hplus, hds]
  exact if_pos ⟨hne, hvalue.symm ▸ hn⟩ |>.trans (congrArg some hvalue)

/-! ### The parts of a name -/

theorem parseGpuParts_number (out : ParsedGpuInstance) (n : ℕ) (rest : List Text) :
    parseGpuParts out (Text.digits n :: rest) = parseGpuParts out rest := by
  obtain ⟨c, t, hn, hc⟩ := Text.exists_digits_cons n
  rw [hn, parseGpuParts_value out hc]

theorem parseGpuParts_hex (out : ParsedGpuInstance) (t : Text) (rest : List Text) :
    parseGpuParts out ((HEX_MARK ++ t) :: rest) = parseGpuParts out rest :=
  parseGpuParts_value out (by decide : '0'.isDigit) ('x' :: t) rest

theorem parseGpuParts_pid (out : ParsedGpuInstance) {n : ℕ} (hn : n < 2 ^ 32) (rest : List Text) :
    parseGpuParts out (FIELD_PID :: Text.digits n :: rest) =
      parseGpuParts { out with pid := some n } rest := by
  rw [parseGpuParts, if_pos rfl, parseGpuParts_number, parseU32, Text.parseNat_digits hn]

theorem parseGpuParts_luid (out : ParsedGpuInstance) {hi lo : Text} {high low : ℕ}
    (hhi : parseHex (HEX_MARK ++ hi) = some high) (hlo : parseHex (HEX_MARK ++ lo) = some low)
    (rest : List Text) :
    parseGpuParts out (FIELD_LUID :: (HEX_MARK ++ hi) :: (HEX_MARK ++ lo) :: rest) =
      parseGpuParts { out with luid := some ⟨Int.bmod high (2 ^ 32), low⟩ } rest := by
  rw [parseGpuParts, if_neg (by decide), if_pos rfl]
  simp only [hhi, hlo, parseGpuParts_hex]

theorem parseGpuParts_phys (out : ParsedGpuInstance) (hout : out.physIndex = none) {n : Option ℕ}
    (hn : ∀ m ∈ n, m < 2 ^ 32) (rest : List Text) :
    parseGpuParts out (optionalField FIELD_PHYS n ++ rest) =
      parseGpuParts { out with physIndex := n } rest := by
  cases n with
  | none =>
    obtain ⟨pid, luid, phys, eng, engtype⟩ := out
    obtain rfl : _ = none := hout
    rfl
  | some m =>
    rw [optionalField, Option.elim_some, List.cons_append, List.cons_append, List.nil_append,
      parseGpuParts, if_neg (by decide), if_neg (by decide), if_pos rfl, parseGpuParts_number,
      parseU32, Text.parseNat_digits (hn m rfl)]

theorem parseGpuParts_eng (out : ParsedGpuInstance) (hout : out.engineIndex = none) {n : Option ℕ}
    (hn : ∀ m ∈ n, m < 2 ^ 32) (rest : List Text) :
    parseGpuParts out (optionalField FIELD_ENG n ++ rest) =
      parseGpuParts { out with engineIndex := n } rest := by
  cases n with
  | none =>
    obtain ⟨pid, luid, phys, eng, engtype⟩ := out
    obtain rfl : _ = none := hout
    rfl
  | some m =>
    rw [optionalField, Option.elim_some, List.cons_append, List.cons_append, List.nil_append,
      parseGpuParts, if_neg (by decide), if_neg (by decide), if_neg (by decide), if_pos rfl,
      parseGpuParts_number, parseU32, Text.parseNat_digits (hn m rfl)]

theorem parseGpuParts_engtype (out : ParsedGpuInstance) (rest : List Text) :
    parseGpuParts out (FIELD_ENGTYPE :: rest) =
      { out with engineType := some (['_'].intercalate rest) } := by
  cases rest with
  | nil =>
    rw [parseGpuParts, if_neg (by decide), if_neg (by decide), if_neg (by decide),
      if_neg (by decide), if_pos rfl]
  | cons part rest =>
    rw [parseGpuParts, if_neg (by decide), if_neg (by decide), if_neg (by decide),
      if_neg (by decide), if_pos rfl]

/-! ### Separators -/

theorem notMem_digits (n : ℕ) : '_' ∉ Text.digits n :=
  fun h => absurd (Text.isDigit_of_mem_digits h) (by decide)

theorem WritesHex.notMem {t : Text} {n : ℕ} (h : WritesHex t n) : '_' ∉ HEX_MARK ++ t := by
  obtain ⟨ds, hds, -⟩ := h.exists_mapM
  rw [List.mem_append, not_or]
  exact ⟨by decide, fun ht => hexValue_ne_none hds ht rfl⟩

theorem notMem_of_mem_optionalField {field part : Text} {n : Option ℕ} (hfield : '_' ∉ field)
    (h : part ∈ optionalField field n) : '_' ∉ part := by
  cases n with
  | none => cases h
  | some m =>
    rw [optionalField, Option.elim_some, List.mem_cons, List.mem_singleton] at h
    rcases h with rfl | rfl
    · exact hfield
    · exact notMem_digits m

/-- A text of parts is split at its separators; the last part may have some of its own. -/
theorem splitOn_intercalate_append_singleton {sep : Char} {front : List Text} {last : Text}
    (h : ∀ part ∈ front, sep ∉ part) :
    ([sep].intercalate (front ++ [last])).splitOn sep = front ++ last.splitOn sep := by
  induction front with
  | nil => rw [List.nil_append, List.nil_append, List.intercalate_singleton]
  | cons part front ih =>
    have hrest := ih fun p hp => h p (List.mem_cons_of_mem part hp)
    rw [List.cons_append, List.intercalate_cons_of_ne_nil (by simp), List.append_assoc,
      List.singleton_append, List.splitOn_append_cons_self_of_not_mem (h part List.mem_cons_self),
      hrest, List.cons_append]

namespace GpuInstance

variable (g : GpuInstance) {hi lo : Text}

/-- The parts in front of the type. -/
def front (hi lo : Text) : List Text :=
  [FIELD_PID, Text.digits g.pid, FIELD_LUID, HEX_MARK ++ hi, HEX_MARK ++ lo] ++
    optionalField FIELD_PHYS g.physIndex ++ optionalField FIELD_ENG g.engineIndex ++
    [FIELD_ENGTYPE]

theorem parts_eq : g.parts hi lo = g.front hi lo ++ [g.engineType] := by
  rw [parts, front, List.append_assoc _ [FIELD_ENGTYPE], List.singleton_append]

/-- A part in front of the type has no separator. -/
theorem notMem_of_mem_front (hhi : WritesHex hi g.highBits) (hlo : WritesHex lo g.luid.low)
    {part : Text} (h : part ∈ g.front hi lo) : '_' ∉ part := by
  rw [front] at h
  rcases List.mem_append.mp h with h | h
  · rcases List.mem_append.mp h with h | h
    · rcases List.mem_append.mp h with h | h
      · simp only [List.mem_cons, List.not_mem_nil, or_false] at h
        rcases h with rfl | rfl | rfl | rfl | rfl
        · decide
        · exact notMem_digits g.pid
        · decide
        · exact hhi.notMem
        · exact hlo.notMem
      · exact notMem_of_mem_optionalField (by decide) h
    · exact notMem_of_mem_optionalField (by decide) h
  · obtain rfl := List.mem_singleton.mp h
    decide

theorem highBits_lt : g.highBits < 2 ^ 32 := by
  rw [highBits]
  omega

theorem bmod_highBits : Int.bmod g.highBits (2 ^ 32) = g.luid.high := by
  have hge := g.high_ge
  have hlt := g.high_lt
  have hbits : (g.highBits : ℤ) = g.luid.high % 2 ^ 32 :=
    Int.toNat_of_nonneg (Int.emod_nonneg _ (by norm_num))
  rw [hbits, Int.bmod_def]
  split_ifs <;> omega

/-- **The fields are read back from the name**, whatever the type holds. -/
theorem parse_name (hhi : WritesHex hi g.highBits) (hlo : WritesHex lo g.luid.low) :
    parseGpuInstance (g.name hi lo) = g.fields := by
  have hparts : (g.name hi lo).splitOn '_' = g.front hi lo ++ g.engineType.splitOn '_' := by
    rw [name, parts_eq]
    exact splitOn_intercalate_append_singleton fun part => g.notMem_of_mem_front hhi hlo
  rw [parseGpuInstance, hparts, front]
  simp only [List.cons_append, List.nil_append, List.append_assoc]
  rw [parseGpuParts_pid _ g.pid_lt,
    parseGpuParts_luid _ (hhi.parseHex g.highBits_lt) (hlo.parseHex g.low_lt),
    parseGpuParts_phys _ rfl g.phys_lt, parseGpuParts_eng _ rfl g.engine_lt,
    parseGpuParts_engtype, List.intercalate_splitOn, bmod_highBits]
  rfl

/-- An engine whose type has the text of a field. -/
def videoDecode : GpuInstance where
  pid := 1276
  luid := ⟨-2, 57765⟩
  physIndex := some 0
  engineIndex := none
  engineType := "Video_pid_9_engtype_".toList
  pid_lt := by decide
  high_ge := by decide
  high_lt := by decide
  low_lt := by decide
  phys_lt := by decide
  engine_lt := by decide

theorem parse_name_videoDecode :
    videoDecode.name "fFfFFffe".toList "0000E1A5".toList =
        "pid_1276_luid_0xfFfFFffe_0x0000E1A5_phys_0_engtype_Video_pid_9_engtype_".toList ∧
      parseGpuInstance (videoDecode.name "fFfFFffe".toList "0000E1A5".toList) =
        videoDecode.fields :=
  ⟨by decide +kernel,
    videoDecode.parse_name ⟨0, by decide +kernel⟩ ⟨4, by decide +kernel⟩⟩

end GpuInstance

end Taskman
