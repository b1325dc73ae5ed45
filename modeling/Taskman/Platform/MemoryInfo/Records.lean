import Taskman.Binary.Parts
import Taskman.Platform.CpuLoad.Table
import Taskman.Text.Scan
import Taskman.Text.Utf8

/-!
# Structures of the firmware

The firmware describes the machine in one table of structures of different lengths: a formatted
area that begins with its kind and its length, and behind it the texts that it refers to by number,
each ended by a NUL, with one more NUL after the last one.  Without a text there are two NULs.

* `records` : the walk over the table;
* `recordsIn` : the records that a table holds, from its front;
* `records_eq` : **the walk reads nothing outside the table and ends with the records it holds**;
* `Structure`, `recordsIn_encode` : **of a table of structures these are the structures, in order**;
* `Structure.string_record` : a number refers to the text of that number.
-/

namespace Taskman.MemoryInfo

open CpuLoad (Target Walk)

/-- `str::trim_end`. -/
def trimEnd (s : Text) : Text := s.rdropWhile Text.isWhitespace

/-- A record of the firmware table, with the strings that follow it. -/
structure Record where
  type : ℕ
  /-- The formatted part, header included. -/
  data : Bytes
  strings : Bytes
  deriving DecidableEq

/-- The text of a number that counts from 1. -/
def Record.string (r : Record) (idx : ℕ) : Text :=
  if idx = 0 then []
  else
    match (r.strings.splitOn 0)[idx - 1]? with
    | some s => trimEnd (Text.fromUtf8Lossy (Bytes.octets s))
    | none => []

section Walk

variable (t : Target) (table : Bytes)

/-- The loop that looks for two NULs. -/
def stringsEnd (stop : ℕ) : Walk ℕ := do
  let _ ← Checked.add t.bound stop 1
  if hin : stop + 1 < table.length then do
    let first ← Checked.readLe t.bound table stop 1
    let second ← Checked.readLe t.bound table (stop + 1) 1
    if first = 0 ∧ second = 0 then .ok stop else stringsEnd (stop + 1)
  else .ok stop
termination_by table.length - stop

theorem le_of_stringsEnd {stop e : ℕ} (h : stringsEnd t table stop = .ok e) : stop ≤ e := by
  induction hfar : table.length - stop using Nat.strong_induction_on generalizing stop with
  | _ far ih =>
    subst hfar
    rw [stringsEnd] at h
    obtain ⟨_, -, h⟩ := Checked.bind_eq_ok.mp h
    split_ifs at h with hin
    · obtain ⟨first, -, h⟩ := Checked.bind_eq_ok.mp h
      obtain ⟨second, -, h⟩ := Checked.bind_eq_ok.mp h
      split_ifs at h with hnul
      · exact (Except.ok.inj h).le
      · have hle := ih _ (by omega) h rfl
        omega
    · exact (Except.ok.inj h).le

-- the named condition is for the proof that the loop ends
set_option linter.unusedVariables false in
/-- The loop over the records. -/
def recordsFrom (i : ℕ) : Walk (List Record) := do
  let _ ← Checked.add t.bound i 4
  if hheader : i + 4 ≤ table.length then do
    let type ← Checked.readLe t.bound table i 1
    let len ← Checked.readLe t.bound table (i + 1) 1
    if len < 4 then .ok []
    else do
      let _ ← Checked.add t.bound i len
      if table.length < i + len then .ok []
      else
        match hend : stringsEnd t table (i + len) with
        | .error e => .error e
        | .ok stop => do
          let _ ← Checked.add t.bound stop 2
          let data ← Checked.slice table i (i + len)
          let strings ← Checked.slice table (i + len) (min (stop + 2) table.length)
          let rest ← recordsFrom (min (stop + 2) table.length)
          .ok ({ type, data, strings } :: rest)
  else .ok []
termination_by table.length - i
decreasing_by
  have hle := le_of_stringsEnd t table hend
  omega

/-- `records`. -/
def records : Walk (List Record) := recordsFrom t table 0

end Walk

/-! ### The records of a table -/

/-- Bytes up to two NULs, which are part of it, or all of them. -/
def stringRegion : Bytes → Bytes
  | first :: second :: rest =>
    if first = 0 ∧ second = 0 then [first, second] else first :: stringRegion (second :: rest)
  | rest => rest

/-- The record at the front of a table. -/
def frontRecord (table : Bytes) : Record where
  type := table.leAt 0 1
  data := table.take (table.leAt 1 1)
  strings := stringRegion (table.drop (table.leAt 1 1))

/-- A whole formatted area is at the front. -/
structure HasFront (table : Bytes) : Prop where
  header : 4 ≤ table.length
  four_le : 4 ≤ table.leAt 1 1
  fits : table.leAt 1 1 ≤ table.length

instance (table : Bytes) : Decidable (HasFront table) :=
  decidable_of_iff (4 ≤ table.length ∧ 4 ≤ table.leAt 1 1 ∧ table.leAt 1 1 ≤ table.length)
    ⟨fun ⟨h, h', h''⟩ => ⟨h, h', h''⟩, fun ⟨h, h', h''⟩ => ⟨h, h', h''⟩⟩

/-- How much of the table the record at its front takes. -/
def Record.span (r : Record) : ℕ := r.data.length + r.strings.length

-- the named condition is for the proof that the recursion ends
set_option linter.unusedVariables false in
/-- The records that a table holds, from its front. -/
def recordsIn (table : Bytes) : List Record :=
  if h : HasFront table then
    frontRecord table :: recordsIn (table.drop (frontRecord table).span)
  else []
termination_by table.length
decreasing_by
  have hlength : (frontRecord table).data.length = table.leAt 1 1 := List.length_take_of_le h.fits
  have := h.header
  have := h.four_le
  rw [List.length_drop, Record.span, hlength]
  omega

theorem stringRegion_cons_cons (first second : UInt8) (rest : Bytes) :
    stringRegion (first :: second :: rest) =
      if first = 0 ∧ second = 0 then [first, second]
      else first :: stringRegion (second :: rest) := rfl

theorem leAt_one {bs : Bytes} {i : ℕ} (h : i < bs.length) : bs.leAt i 1 = (bs[i]).toNat := by
  rw [Bytes.leAt, List.drop_eq_getElem_cons h, List.take_succ_cons, List.take_zero]
  simp [Bytes.ofLe]

theorem leAt_one_eq_zero_iff {bs : Bytes} {i : ℕ} (h : i < bs.length) :
    bs.leAt i 1 = 0 ↔ bs[i] = 0 := by
  rw [leAt_one h, ← UInt8.toNat_inj]
  rfl

section Walk

variable {t : Target} {table : Bytes}

/-- The loop stops at the end of the region of texts. -/
theorem stringsEnd_eq (hbound : table.length < t.bound / 2) {stop : ℕ}
    (hstop : stop ≤ table.length) :
    ∃ e, stringsEnd t table stop = .ok e ∧ e ≤ table.length ∧
      min (e + 2) table.length = stop + (stringRegion (table.drop stop)).length := by
  induction hfar : table.length - stop using Nat.strong_induction_on generalizing stop with
  | _ far ih =>
    subst hfar
    have hadd : (Checked.add t.bound stop 1 : Walk ℕ) = .ok (stop + 1) := if_pos (by omega)
    rw [stringsEnd, hadd, Checked.bind_ok]
    by_cases hin : stop + 1 < table.length
    · rw [dif_pos hin, Checked.readLe_eq_leAt (by omega) (by omega), Checked.bind_ok,
        Checked.readLe_eq_leAt (by omega) (by omega), Checked.bind_ok,
        List.drop_eq_getElem_cons (by omega : stop < table.length),
        List.drop_eq_getElem_cons hin, stringRegion_cons_cons]
      have hnuls : (table.leAt stop 1 = 0 ∧ table.leAt (stop + 1) 1 = 0) ↔
          (table[stop] = 0 ∧ table[stop + 1] = 0) :=
        and_congr (leAt_one_eq_zero_iff _) (leAt_one_eq_zero_iff _)
      by_cases hnul : table[stop] = 0 ∧ table[stop + 1] = 0
      · rw [if_pos (hnuls.mpr hnul), if_pos hnul]
        exact ⟨stop, rfl, hstop, min_eq_left (by omega)⟩
      · rw [if_neg (mt hnuls.mp hnul), if_neg hnul]
        obtain ⟨e, he, hle, hregion⟩ := ih _ (by omega) (by omega : stop + 1 ≤ table.length) rfl
        refine ⟨e, he, hle, ?_⟩
        rw [hregion, ← List.drop_eq_getElem_cons hin, List.length_cons]
        omega
    · rw [dif_neg hin]
      refine ⟨stop, rfl, hstop, ?_⟩
      have hrest : (table.drop stop).length < 2 := by
        rw [List.length_drop]
        omega
      have hregion : stringRegion (table.drop stop) = table.drop stop := by
        generalize table.drop stop = rest at hrest ⊢
        match rest with
        | [] | [_] => rfl
        | _ :: _ :: rest => exact absurd hrest (by simp)
      rw [hregion, List.length_drop]
      omega

theorem recordsIn_of_hasFront (h : HasFront table) :
    recordsIn table = frontRecord table :: recordsIn (table.drop (frontRecord table).span) := by
  rw [recordsIn, dif_pos h]

theorem recordsIn_of_not_hasFront (h : ¬ HasFront table) : recordsIn table = [] := by
  rw [recordsIn, dif_neg h]

theorem hasFront_drop_iff {i : ℕ} (hi : i ≤ table.length) :
    HasFront (table.drop i) ↔ i + 4 ≤ table.length ∧ 4 ≤ table.leAt (i + 1) 1 ∧
      i + table.leAt (i + 1) 1 ≤ table.length := by
  have hlength : (table.drop i).length = table.length - i := List.length_drop
  constructor
  · rintro ⟨hheader, hfour, hfits⟩
    rw [Bytes.leAt_drop] at hfour hfits
    exact ⟨by omega, hfour, by omega⟩
  · rintro ⟨hheader, hfour, hfits⟩
    refine ⟨by omega, ?_, ?_⟩
    · rwa [Bytes.leAt_drop]
    · rw [Bytes.leAt_drop]
      omega

theorem frontRecord_drop (table : Bytes) (i : ℕ) :
    frontRecord (table.drop i) =
      { type := table.leAt i 1
        data := table.part i (table.leAt (i + 1) 1)
        strings := stringRegion (table.drop (i + table.leAt (i + 1) 1)) } := by
  rw [frontRecord, Bytes.leAt_drop, Bytes.leAt_drop, List.drop_drop, Nat.add_zero]
  rfl

theorem stringRegion_isPrefix (bs : Bytes) : stringRegion bs <+: bs := by
  induction bs with
  | nil => exact List.prefix_rfl
  | cons first bs ih =>
    cases bs with
    | nil => exact List.prefix_rfl
    | cons second rest =>
      rw [stringRegion_cons_cons]
      split_ifs
      · exact List.prefix_append [first, second] rest
      · exact (List.prefix_cons_inj first).mpr ih

/-- **The walk reads nothing outside the table, and ends with the records it holds.** -/
theorem recordsFrom_eq (hbound : table.length < t.bound / 2) {i : ℕ} (hi : i ≤ table.length) :
    recordsFrom t table i = .ok (recordsIn (table.drop i)) := by
  have hlarge := t.le_bound
  induction hfar : table.length - i using Nat.strong_induction_on generalizing i with
  | _ far ih =>
    subst hfar
    have hadd : (Checked.add t.bound i 4 : Walk ℕ) = .ok (i + 4) := if_pos (by omega)
    have hfront := hasFront_drop_iff hi
    rw [recordsFrom, hadd, Checked.bind_ok]
    -- the three checks of the walk are the three conditions of `HasFront`
    by_cases hheader : i + 4 ≤ table.length
    swap
    · rw [dif_neg hheader, recordsIn_of_not_hasFront fun h => hheader (hfront.mp h).1]
    have hlt := Bytes.leAt_lt table (i + 1) 1
    rw [dif_pos hheader, Checked.readLe_eq_leAt (by omega) (by omega), Checked.bind_ok,
      Checked.readLe_eq_leAt (by omega) (by omega), Checked.bind_ok]
    by_cases hfour : 4 ≤ table.leAt (i + 1) 1
    swap
    · rw [if_pos (by omega), recordsIn_of_not_hasFront fun h => hfour (hfront.mp h).2.1]
    have haddLen : (Checked.add t.bound i (table.leAt (i + 1) 1) : Walk ℕ) =
        .ok (i + table.leAt (i + 1) 1) := if_pos (by omega)
    rw [if_neg (by omega), haddLen, Checked.bind_ok]
    by_cases hfits : i + table.leAt (i + 1) 1 ≤ table.length
    swap
    · rw [if_pos (by omega), recordsIn_of_not_hasFront fun h => hfits (hfront.mp h).2.2]
    rw [if_neg (by omega), recordsIn_of_hasFront (hfront.mpr ⟨hheader, hfour, hfits⟩),
      frontRecord_drop]
    -- the strings after the formatted area end at `e`
    obtain ⟨e, he, hle, hend⟩ := stringsEnd_eq hbound hfits
    have hregion := stringRegion_isPrefix (table.drop (i + table.leAt (i + 1) 1))
    have hregionLe := hregion.length_le
    rw [List.length_drop] at hregionLe
    have hpart : table.part (i + table.leAt (i + 1) 1) (stringRegion _).length = _ :=
      (List.prefix_iff_eq_take.mp hregion).symm
    have haddEnd : (Checked.add t.bound e 2 : Walk ℕ) = .ok (e + 2) := if_pos (by omega)
    split
    · rename_i hfail
      rw [he] at hfail
      cases hfail
    · rename_i stop hstop
      obtain rfl := Except.ok.inj (he.symm.trans hstop)
      rw [haddEnd, Checked.bind_ok, hend, Checked.slice_eq_part hfits, Checked.bind_ok,
        Checked.slice_eq_part (by omega), Checked.bind_ok, ih _ (by omega) (by omega) rfl,
        Checked.bind_ok, Record.span, Bytes.length_part hfits, List.drop_drop, hpart,
        Nat.add_assoc]

theorem records_eq (hbound : table.length < t.bound / 2) :
    records t table = .ok (recordsIn table) := by
  rw [records, recordsFrom_eq hbound (Nat.zero_le _), List.drop_zero]

end Walk

/-! ### Structures -/

/-- A structure of the firmware: a formatted area with its own length in the second byte, and its
texts. -/
structure Structure where
  formatted : Bytes
  strings : List Bytes
  header_le : 4 ≤ formatted.length
  length_eq : formatted.leAt 1 1 = formatted.length
  ne_nil : ∀ s ∈ strings, s ≠ []
  nul_free : ∀ s ∈ strings, 0 ∉ s

/-- Each text is ended by a NUL, and the set by another one; an empty set is two NULs. -/
def stringSet : List Bytes → Bytes
  | [] => [0, 0]
  | s :: strings => (s :: strings).flatMap (· ++ [0]) ++ [0]

/-- The bytes of a structure. -/
def Structure.encode (s : Structure) : Bytes := s.formatted ++ stringSet s.strings

/-- The record that the walk should make of a structure. -/
def Structure.record (s : Structure) : Record where
  type := s.formatted.leAt 0 1
  data := s.formatted
  strings := stringSet s.strings

/-- The text that a number refers to; the texts count from 1. -/
def Structure.text (s : Structure) (idx : ℕ) : Text :=
  if idx = 0 then []
  else ((s.strings[idx - 1]?).map fun bs => trimEnd (Text.fromUtf8Lossy (Bytes.octets bs))).getD []

theorem stringRegion_cons_of_ne {b : UInt8} (hb : b ≠ 0) (rest : Bytes) :
    stringRegion (b :: rest) = b :: stringRegion rest := by
  cases rest with
  | nil => rfl
  | cons c rest => rw [stringRegion_cons_cons, if_neg fun h => hb h.1]

theorem stringRegion_append {s : Bytes} (hs : 0 ∉ s) (rest : Bytes) :
    stringRegion (s ++ rest) = s ++ stringRegion rest := by
  induction s with
  | nil => rfl
  | cons b s ih =>
    rw [List.mem_cons, not_or] at hs
    rw [List.cons_append, stringRegion_cons_of_ne (Ne.symm hs.1), ih hs.2, List.cons_append]

/-- The region of a set of texts is the set. -/
theorem stringRegion_stringSet {strings : List Bytes} (hne : ∀ s ∈ strings, s ≠ [])
    (hnul : ∀ s ∈ strings, 0 ∉ s) (rest : Bytes) :
    stringRegion (stringSet strings ++ rest) = stringSet strings := by
  induction strings with
  | nil => rfl
  | cons s strings ih =>
    rw [List.forall_mem_cons] at hne hnul
    cases strings with
    | nil =>
      have hset : stringSet [s] = s ++ [0, 0] := by simp [stringSet]
      rw [hset, List.append_assoc, stringRegion_append hnul.1]
      rfl
    | cons s' strings =>
      have hset : stringSet (s :: s' :: strings) = s ++ 0 :: stringSet (s' :: strings) := by
        simp [stringSet]
      -- the next text begins with something else than a NUL
      obtain ⟨b, bs, hs'⟩ := List.exists_cons_of_ne_nil (hne.2 s' List.mem_cons_self)
      have hb : b ≠ 0 := fun h => hnul.2 s' List.mem_cons_self (by rw [hs', h]; exact .head _)
      obtain ⟨more, hmore⟩ : ∃ more, stringSet (s' :: strings) ++ rest = b :: more :=
        ⟨_, by rw [stringSet, List.flatMap_cons, hs']; rfl⟩
      rw [hset, List.append_assoc, stringRegion_append hnul.1, List.cons_append, hmore,
        stringRegion_cons_cons, if_neg fun h => hb h.2, ← hmore, ih hne.2 hnul.2]

theorem leAt_encode (s : Structure) (rest : Bytes) {offset width : ℕ} (h : offset + width ≤ 4) :
    (s.encode ++ rest : Bytes).leAt offset width = s.formatted.leAt offset width := by
  have hheader := s.header_le
  rw [Structure.encode, List.append_assoc, Bytes.leAt_append (by omega)]

theorem hasFront_encode (s : Structure) (rest : Bytes) : HasFront (s.encode ++ rest) := by
  have hheader := s.header_le
  have hlength : s.formatted.length ≤ (s.encode ++ rest).length := by
    rw [Structure.encode, List.append_assoc, List.length_append]
    exact Nat.le_add_right _ _
  refine ⟨hheader.trans hlength, ?_, ?_⟩
  · rwa [leAt_encode s rest (by decide), s.length_eq]
  · rwa [leAt_encode s rest (by decide), s.length_eq]

theorem frontRecord_encode (s : Structure) (rest : Bytes) :
    frontRecord (s.encode ++ rest) = s.record := by
  rw [frontRecord, leAt_encode s rest (by decide), leAt_encode s rest (by decide), s.length_eq,
    Structure.encode, List.append_assoc, List.take_left, List.drop_left,
    stringRegion_stringSet s.ne_nil s.nul_free]
  rfl

theorem Structure.span_record (s : Structure) : s.record.span = s.encode.length := by
  rw [Structure.encode, List.length_append]
  rfl

/-- **The records of a table of structures** are theirs, in order. -/
theorem recordsIn_encode (structures : List Structure) :
    recordsIn (structures.flatMap Structure.encode) = structures.map Structure.record := by
  induction structures with
  | nil => exact recordsIn_of_not_hasFront fun h => absurd h.header (by decide)
  | cons s structures ih =>
    rw [List.flatMap_cons, recordsIn_of_hasFront (hasFront_encode s _), frontRecord_encode,
      s.span_record, List.drop_left, ih, List.map_cons]

/-- The bytes between the NULs of a set are its texts, and nothing behind them. -/
theorem splitOn_stringSet {strings : List Bytes} (hnul : ∀ s ∈ strings, 0 ∉ s) :
    ∃ n, (stringSet strings).splitOn 0 = strings ++ List.replicate n [] := by
  have hsplit (rest : Bytes) :
      (strings.flatMap (· ++ [0]) ++ rest).splitOn 0 = strings ++ rest.splitOn 0 := by
    induction strings with
    | nil => rfl
    | cons s strings ih =>
      rw [List.forall_mem_cons] at hnul
      rw [List.flatMap_cons, List.append_assoc, List.append_assoc, List.singleton_append,
        List.splitOn_append_cons_self_of_not_mem hnul.1, ih hnul.2, List.cons_append]
  cases strings with
  | nil => exact ⟨3, rfl⟩
  | cons s strings => exact ⟨2, hsplit [0]⟩

/-- **A number refers to the text of that number.** -/
theorem Structure.string_record (s : Structure) (idx : ℕ) : s.record.string idx = s.text idx := by
  obtain ⟨n, hsplit⟩ := splitOn_stringSet s.nul_free
  rw [Record.string, Structure.text, Structure.record, hsplit]
  split_ifs with hzero
  · rfl
  by_cases hin : idx - 1 < s.strings.length
  · rw [List.getElem?_append_left hin, List.getElem?_eq_getElem hin]
    rfl
  · rw [List.getElem?_append_right (by omega), List.getElem?_eq_none (l := s.strings) (by omega),
      List.getElem?_replicate]
    split_ifs <;> rfl

theorem Structure.text_eq (s : Structure) {idx : ℕ} {bs : Bytes} {name : Text} (hidx : idx ≠ 0)
    (hbs : s.strings[idx - 1]? = some bs) (hname : Bytes.octets bs = Text.encodeUtf8 name)
    (htrim : trimEnd name = name) : s.text idx = name := by
  rw [Structure.text, if_neg hidx, hbs, Option.map_some, hname, Text.fromUtf8Lossy_encodeUtf8,
    htrim, Option.getD_some]

end Taskman.MemoryInfo
