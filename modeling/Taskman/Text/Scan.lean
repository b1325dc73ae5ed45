import Taskman.Text.Basic
import Mathlib.Data.List.Basic
import Mathlib.Data.List.DropRight

/-!
# Scanning texts

The string operations a line-oriented format is read with: whitespace, lines, prefixes and the
first or last occurrence of a separator.  Each has one lemma for what it gives on a text put
together from parts, and one for what it says about any text.

* `Text.trim`, `Text.Trimmed` : no whitespace at either end;
* `Text.lines` : **lines, with either line ending** (`lines_append_newline`);
* `Text.splitOnce`, `Text.rsplitOnce` : what stands before and after a separator.
-/

namespace Text

/-! ### Lowering -/

theorem toLower_cases (c : Char) :
    c.toLower = c ∨ (65 ≤ c.toNat ∧ c.toNat ≤ 90 ∧ c.toLower.toNat = c.toNat + 32) := by
  delta Char.toLower
  split
  · rename_i h
    have hlo : 65 ≤ c.val.toNat := h.1
    have hhi : c.val.toNat ≤ 90 := h.2
    refine Or.inr ⟨hlo, hhi, ?_⟩
    show (c.val + ('a'.val - 'A'.val)).toNat = c.val.toNat + 32
    have hdist : ('a'.val - 'A'.val).toNat = 32 := by decide
    rw [UInt32.toNat_add, hdist]
    omega
  · exact Or.inl rfl

theorem toLower_toLower (c : Char) : c.toLower.toLower = c.toLower := by
  rcases toLower_cases c with h | ⟨hlo, -, h⟩
  · rw [h, h]
  · rcases toLower_cases c.toLower with h' | ⟨-, hhi, -⟩
    · exact h'
    · omega

/-- Lowering neither makes nor removes a character that is not a letter. -/
theorem toLower_eq_iff {c d : Char} (hd : d.toNat < 65) : c.toLower = d ↔ c = d := by
  rcases toLower_cases c with h | ⟨hlo, -, h⟩
  · rw [h]
  · constructor
    · rintro rfl
      omega
    · rintro rfl
      omega

@[simp]
theorem toAsciiLowercase_toAsciiLowercase (t : Text) :
    toAsciiLowercase (toAsciiLowercase t) = toAsciiLowercase t := by
  simp only [toAsciiLowercase, List.map_map]
  exact List.map_congr_left fun c _ => toLower_toLower c

theorem mem_toAsciiLowercase_iff {t : Text} {d : Char} (hd : d.toNat < 65) :
    d ∈ toAsciiLowercase t ↔ d ∈ t := by
  simp [toAsciiLowercase, toLower_eq_iff hd]

theorem head?_toAsciiLowercase_eq_iff {t : Text} {d : Char} (hd : d.toNat < 65) :
    (toAsciiLowercase t).head? = some d ↔ t.head? = some d := by
  rw [toAsciiLowercase, List.head?_map, Option.map_eq_some_iff]
  constructor
  · rintro ⟨c, hc, h⟩
    rwa [← (toLower_eq_iff hd).mp h]
  · intro h
    exact ⟨d, h, (toLower_eq_iff hd).mpr rfl⟩

/-! ### Whitespace -/

/-- `char::is_whitespace`: the characters with the Unicode property `White_Space`. -/
def isWhitespace (c : Char) : Bool :=
  let n := c.toNat
  (9 ≤ n && n ≤ 13) || n == 0x20 || n == 0x85 || n == 0xA0 || n == 0x1680 ||
    (0x2000 ≤ n && n ≤ 0x200A) || n == 0x2028 || n == 0x2029 || n == 0x202F || n == 0x205F ||
    n == 0x3000

/-- Whitespace removed at both ends. -/
def trim (t : Text) : Text := (t.dropWhile isWhitespace).rdropWhile isWhitespace

/-- No whitespace at either end. -/
structure Trimmed (t : Text) : Prop where
  head : ∀ c ∈ t.head?, isWhitespace c = false
  last : ∀ c ∈ t.getLast?, isWhitespace c = false

instance (t : Text) : Decidable (Trimmed t) :=
  -- the two are ranges over at most one character, not over all of `Char`
  @decidable_of_iff _ ((∀ c ∈ t.head?, isWhitespace c = false) ∧
      ∀ c ∈ t.getLast?, isWhitespace c = false)
    ⟨fun h => ⟨h.1, h.2⟩, fun h => ⟨h.head, h.last⟩⟩
    (@instDecidableAnd _ _ (Option.decidableForallMem _) (Option.decidableForallMem _))

theorem isWhitespace_eq_false_of_range {c : Char} (hlo : 33 ≤ c.toNat) (hhi : c.toNat ≤ 126) :
    isWhitespace c = false := by
  simp only [isWhitespace, Bool.or_eq_false_iff, Bool.and_eq_false_iff, decide_eq_false_iff_not,
    beq_eq_false_iff_ne, ne_eq]
  omega

theorem isWhitespace_toLower (c : Char) : isWhitespace c.toLower = isWhitespace c := by
  rcases toLower_cases c with h | ⟨hlo, hhi, h⟩
  · rw [h]
  · rw [isWhitespace_eq_false_of_range (by omega) (by omega),
      isWhitespace_eq_false_of_range (by omega) (by omega)]

theorem trim_eq_self {t : Text} (h : Trimmed t) : trim t = t := by
  have hfront : t.dropWhile isWhitespace = t := by
    cases t with
    | nil => rfl
    | cons c t => rw [List.dropWhile_cons, h.head c rfl, if_neg Bool.false_ne_true]
  rw [trim, hfront, List.rdropWhile_eq_self_iff]
  intro hne
  rw [h.last _ (List.getLast?_eq_some_getLast hne)]
  exact Bool.false_ne_true

theorem trimmed_trim (t : Text) : Trimmed (trim t) := by
  constructor
  · intro c hc
    -- What is left of the front after the end is cut off still begins the text.
    have hpre : (t.dropWhile isWhitespace).head? = some c := by
      obtain ⟨u, hu⟩ := List.rdropWhile_prefix isWhitespace (t.dropWhile isWhitespace)
      rw [← hu, List.head?_append]
      simp only [trim, Option.mem_def] at hc
      rw [hc, Option.some_or]
    have h := List.head?_dropWhile_not isWhitespace t
    rwa [hpre] at h
  · intro c hc
    have hne : trim t ≠ [] := by
      rintro hnil
      rw [hnil] at hc
      cases hc
    have h := List.rdropWhile_last_not isWhitespace (t.dropWhile isWhitespace) hne
    rw [List.getLast?_eq_some_getLast hne] at hc
    obtain rfl := Option.some.inj hc
    exact Bool.eq_false_iff.mpr h

theorem head?_trim {t : Text} (h : ∀ c ∈ t.head?, isWhitespace c = false) :
    (trim t).head? = t.head? := by
  rcases t with _ | ⟨c, t⟩
  · rfl
  · have hc := h c rfl
    have hfront : (c :: t).dropWhile isWhitespace = c :: t := by
      rw [List.dropWhile_cons, hc, if_neg Bool.false_ne_true]
    obtain ⟨u, hu⟩ := List.rdropWhile_prefix isWhitespace (c :: t)
    rw [trim, hfront]
    rcases hr : (c :: t).rdropWhile isWhitespace with _ | ⟨d, r⟩
    · -- The visible character in front would be among those removed at the end.
      rw [List.rdropWhile_eq_nil_iff] at hr
      exact absurd (hr c List.mem_cons_self) (by simp [hc])
    · rw [hr] at hu
      rw [← hu, List.cons_append, List.head?_cons, List.head?_cons]

theorem getLast?_trim {t : Text} {c : Char} (h : t.getLast? = some c)
    (hc : isWhitespace c = false) : (trim t).getLast? = some c := by
  obtain ⟨s, rfl⟩ := List.getLast?_eq_some_iff.mp h
  have hfront : (s ++ [c]).dropWhile isWhitespace = s.dropWhile isWhitespace ++ [c] := by
    rw [List.dropWhile_append]
    split_ifs with hs
    · rw [List.isEmpty_iff.mp hs]
      simp [hc]
    · rfl
  rw [trim, hfront, List.rdropWhile_concat_neg _ _ _ (by simp [hc]), List.getLast?_concat]

theorem trim_sublist (t : Text) : (trim t).Sublist t := by
  have hfront := List.dropWhile_sublist (l := t) isWhitespace
  have hback := List.rdropWhile_prefix isWhitespace (t.dropWhile isWhitespace)
  exact hback.sublist.trans hfront

theorem mem_of_mem_trim {t : Text} {c : Char} (h : c ∈ trim t) : c ∈ t := (trim_sublist t).subset h

theorem trim_cons {c : Char} (hc : isWhitespace c) (t : Text) : trim (c :: t) = trim t := by
  simp [trim, hc]

theorem trim_concat {c : Char} (hc : isWhitespace c) (t : Text) : trim (t ++ [c]) = trim t := by
  rw [trim, trim, List.dropWhile_append]
  split_ifs with hd
  · rw [List.isEmpty_iff] at hd
    simp [hd, hc]
  · rw [List.rdropWhile_concat_pos _ _ _ hc]

theorem trim_rdropWhile (t : Text) : trim (t.rdropWhile isWhitespace) = trim t := by
  induction t using List.reverseRecOn with
  | nil => rfl
  | append_singleton t c ih =>
    by_cases hc : isWhitespace c
    · rw [List.rdropWhile_concat_pos _ _ _ hc, ih, trim_concat hc]
    · rw [List.rdropWhile_concat_neg _ _ _ hc]

theorem rdropWhile_append_cons {c : Char} (hc : isWhitespace c = false) (s t : Text) :
    (s ++ c :: t).rdropWhile isWhitespace = s ++ c :: t.rdropWhile isWhitespace := by
  induction t using List.reverseRecOn with
  | nil => rw [List.rdropWhile_concat_neg _ _ _ (by simp [hc])]; rfl
  | append_singleton t d ih =>
    rw [← List.cons_append, ← List.append_assoc]
    by_cases hd : isWhitespace d
    · rw [List.rdropWhile_concat_pos _ _ _ hd, List.rdropWhile_concat_pos _ _ _ hd, ih]
    · rw [List.rdropWhile_concat_neg _ _ _ hd, List.rdropWhile_concat_neg _ _ _ hd,
        List.append_assoc, List.cons_append]

theorem trimmed_nil : Trimmed [] := ⟨by simp, by simp⟩

theorem trimmed_of_forall {t : Text} (h : ∀ c ∈ t, isWhitespace c = false) : Trimmed t :=
  ⟨fun c hc => h c (List.mem_of_mem_head? hc), fun c hc => h c (List.mem_of_mem_getLast? hc)⟩

/-- Two parts, joined by a visible character. -/
theorem Trimmed.join {s t : Text} {c : Char} (hs : Trimmed s) (hc : isWhitespace c = false)
    (ht : Trimmed t) : Trimmed (s ++ c :: t) := by
  constructor
  · intro d hd
    rw [List.head?_append, List.head?_cons] at hd
    rcases hh : s.head? with _ | e
    · rw [hh] at hd
      obtain rfl := Option.some.inj hd
      exact hc
    · rw [hh] at hd
      obtain rfl := Option.some.inj hd
      exact hs.head e hh
  · intro d hd
    rw [List.getLast?_append, List.getLast?_cons, Option.some_or] at hd
    rcases hl : t.getLast? with _ | e
    · rw [hl] at hd
      obtain rfl := Option.some.inj hd
      exact hc
    · rw [hl] at hd
      obtain rfl := Option.some.inj hd
      exact ht.last e hl

theorem Trimmed.toAsciiLowercase {t : Text} (h : Trimmed t) : Trimmed (toAsciiLowercase t) := by
  constructor
  · intro c hc
    rw [Text.toAsciiLowercase, List.head?_map] at hc
    obtain ⟨d, hd, rfl⟩ := Option.map_eq_some_iff.mp hc
    rw [isWhitespace_toLower]
    exact h.head d hd
  · intro c hc
    rw [Text.toAsciiLowercase, List.getLast?_map] at hc
    obtain ⟨d, hd, rfl⟩ := Option.map_eq_some_iff.mp hc
    rw [isWhitespace_toLower]
    exact h.last d hd

/-! ### Lines -/

/-- One carriage return removed at the end. -/
def stripCr (l : Text) : Text := if l.getLast? = some '\r' then l.dropLast else l

/-- `str::lines`: what the line feeds end, without a carriage return before them, and what follows
the last one, unless that is nothing. -/
def lines (t : Text) : List Text :=
  (t.splitOn '\n').dropLast.map stripCr ++ (t.splitOn '\n').getLast?.toList.filter (· ≠ [])

theorem lines_append_newline {l : Text} (h : '\n' ∉ l) (t : Text) :
    lines (l ++ '\n' :: t) = stripCr l :: lines t := by
  obtain ⟨p, ps, hps⟩ := List.exists_cons_of_ne_nil (List.splitOn_ne_nil '\n' t)
  rw [lines, lines, List.splitOn_append_cons_self_of_not_mem h, hps]
  simp

/-- Lines put together. -/
def unlines (ls : List Text) : Text := ls.flatMap fun l => l ++ ['\n']

/-- **What was put together line by line is read line by line.** -/
theorem lines_unlines {ls : List Text} (h : ∀ l ∈ ls, '\n' ∉ l) :
    lines (unlines ls) = ls.map stripCr := by
  induction ls with
  | nil => rfl
  | cons l ls ih =>
    have hline : unlines (l :: ls) = l ++ '\n' :: unlines ls := by
      rw [unlines, List.flatMap_cons, List.append_assoc]
      rfl
    rw [hline, lines_append_newline (h l List.mem_cons_self),
      ih fun m hm => h m (List.mem_cons_of_mem l hm), List.map_cons]

theorem trim_stripCr (l : Text) : trim (stripCr l) = trim l := by
  unfold stripCr
  split_ifs with h
  · have hne : l ≠ [] := by
      rintro rfl
      cases h
    rw [List.getLast?_eq_some_getLast hne] at h
    have hl : l = l.dropLast ++ ['\r'] := by
      rw [← Option.some.inj h, List.dropLast_append_getLast hne]
    conv_rhs => rw [hl, trim_concat (by decide)]
  · rfl

theorem notMem_of_mem_splitOn {t l : Text} {c : Char} (h : l ∈ t.splitOn c) : c ∉ l := by
  induction t generalizing l with
  | nil =>
    rw [List.splitOn_nil, List.mem_singleton] at h
    subst h
    exact List.not_mem_nil
  | cons d t ih =>
    rw [List.splitOn_cons_eq_if_modifyHead] at h
    split_ifs at h with hd
    · rcases List.mem_cons.mp h with rfl | h
      · exact List.not_mem_nil
      · exact ih h
    · obtain ⟨p, ps, hps⟩ := List.exists_cons_of_ne_nil (List.splitOn_ne_nil c t)
      rw [hps, List.modifyHead_cons] at h
      rw [hps] at ih
      rcases List.mem_cons.mp h with rfl | h
      · rw [List.mem_cons, not_or]
        exact ⟨fun hcd => hd (by simp [hcd]), ih List.mem_cons_self⟩
      · exact ih (List.mem_cons_of_mem p h)

/-- The lines of a text, put together, are the text and one more line feed. -/
theorem unlines_splitOn (t : Text) : unlines (t.splitOn '\n') = t ++ ['\n'] := by
  induction t with
  | nil => rfl
  | cons d t ih =>
    rw [List.splitOn_cons_eq_if_modifyHead]
    split_ifs with hd
    · obtain rfl := beq_iff_eq.mp hd
      simpa [unlines] using ih
    · obtain ⟨p, ps, hps⟩ := List.exists_cons_of_ne_nil (List.splitOn_ne_nil '\n' t)
      rw [hps] at ih ⊢
      rw [List.cons_append, ← ih]
      simp [unlines]

theorem newline_notMem_of_mem_lines {t l : Text} (h : l ∈ lines t) : '\n' ∉ l := by
  rcases List.mem_append.mp h with h | h
  · obtain ⟨p, hp, rfl⟩ := List.mem_map.mp h
    have hnot := notMem_of_mem_splitOn (List.dropLast_subset _ hp)
    unfold stripCr
    split_ifs
    · exact fun hmem => hnot (List.dropLast_subset _ hmem)
    · exact hnot
  · have hl := (List.mem_filter.mp h).1
    rw [Option.mem_toList] at hl
    exact notMem_of_mem_splitOn (List.mem_of_mem_getLast? hl)

/-! ### Prefixes and suffixes -/

/-- `str::strip_prefix`. -/
def stripPrefix (t p : Text) : Option Text := t.dropPrefix? p

/-- `str::strip_suffix`. -/
def stripSuffix (t s : Text) : Option Text := t.dropSuffix? s

/-- `str::trim_end_matches`. -/
def trimEndMatches (s t : Text) : Text :=
  Nat.repeat (fun t : Text => (t.stripSuffix s).getD t) t.length t

theorem stripPrefix_eq_some_iff {t p r : Text} : t.stripPrefix p = some r ↔ t = p ++ r := by
  rw [stripPrefix, List.dropPrefix?_eq_some_iff]
  constructor
  · rintro ⟨q, rfl, hq⟩
    rw [beq_iff_eq.mp hq]
  · rintro rfl
    exact ⟨p, rfl, beq_self_eq_true p⟩

theorem stripSuffix_eq_some_iff {t s r : Text} : t.stripSuffix s = some r ↔ t = r ++ s := by
  rw [stripSuffix, List.dropSuffix?_eq_some_iff]
  constructor
  · rintro ⟨q, rfl, hq⟩
    rw [beq_iff_eq.mp hq]
  · rintro rfl
    exact ⟨s, rfl, beq_self_eq_true s⟩

@[simp]
theorem stripPrefix_append (p r : Text) : stripPrefix (p ++ r) p = some r :=
  stripPrefix_eq_some_iff.mpr rfl

@[simp]
theorem stripSuffix_append (r s : Text) : stripSuffix (r ++ s) s = some r :=
  stripSuffix_eq_some_iff.mpr rfl

/-! ### Separators -/

/-- What stands before and after the first character of a kind. -/
def splitOnce (p : Char → Bool) : Text → Option (Text × Text)
  | [] => none
  | c :: t => if p c then some ([], t) else (splitOnce p t).map fun (a, b) => (c :: a, b)

/-- What stands before and after the last character of a kind. -/
def rsplitOnce (p : Char → Bool) (t : Text) : Option (Text × Text) :=
  (splitOnce p t.reverse).map fun (a, b) => (b.reverse, a.reverse)

theorem splitOnce_eq_some_iff {p : Char → Bool} {t a b : Text} :
    splitOnce p t = some (a, b) ↔
      ∃ c, p c ∧ t = a ++ c :: b ∧ ∀ d ∈ a, p d = false := by
  induction t generalizing a b with
  | nil => simp [splitOnce]
  | cons e t ih =>
    rw [splitOnce]
    split_ifs with he
    · constructor
      · rintro ⟨⟩
        exact ⟨e, he, rfl, by simp⟩
      · rintro ⟨c, -, h, ha⟩
        rcases a with _ | ⟨d, a⟩
        · obtain ⟨-, rfl⟩ := List.cons.inj h
          rfl
        · obtain ⟨rfl, -⟩ := List.cons.inj h
          exact absurd he (by simp [ha e List.mem_cons_self])
    · rw [Option.map_eq_some_iff]
      constructor
      · rintro ⟨⟨a, b⟩, h, ⟨⟩⟩
        obtain ⟨c, hc, rfl, ha⟩ := ih.mp h
        refine ⟨c, hc, rfl, ?_⟩
        intro d hd
        rcases List.mem_cons.mp hd with rfl | hd
        · exact Bool.eq_false_iff.mpr he
        · exact ha d hd
      · rintro ⟨c, hc, h, ha⟩
        rcases a with _ | ⟨d, a⟩
        · obtain ⟨rfl, -⟩ := List.cons.inj h
          exact absurd hc he
        · obtain ⟨rfl, rfl⟩ := List.cons.inj h
          exact ⟨(a, b), ih.mpr ⟨c, hc, rfl, fun d hd => ha d (List.mem_cons_of_mem e hd)⟩, rfl⟩

theorem splitOnce_eq_none_iff {p : Char → Bool} {t : Text} :
    splitOnce p t = none ↔ ∀ c ∈ t, p c = false := by
  induction t with
  | nil => simp [splitOnce]
  | cons e t ih =>
    rw [splitOnce]
    split_ifs with he
    · simp [he]
    · simp [ih, he]

theorem rsplitOnce_eq_some_iff {p : Char → Bool} {t a b : Text} :
    rsplitOnce p t = some (a, b) ↔
      ∃ c, p c ∧ t = a ++ c :: b ∧ ∀ d ∈ b, p d = false := by
  rw [rsplitOnce, Option.map_eq_some_iff]
  constructor
  · rintro ⟨⟨u, v⟩, h, ⟨⟩⟩
    obtain ⟨c, hc, ht, hu⟩ := splitOnce_eq_some_iff.mp h
    refine ⟨c, hc, ?_, fun d hd => hu d (List.mem_reverse.mp hd)⟩
    rw [← List.reverse_reverse t, ht]
    simp
  · rintro ⟨c, hc, rfl, hb⟩
    refine ⟨(b.reverse, a.reverse), splitOnce_eq_some_iff.mpr ⟨c, hc, by simp, ?_⟩, by simp⟩
    exact fun d hd => hb d (List.mem_reverse.mp hd)

theorem splitOnce_append_cons {c : Char} {a : Text} (h : c ∉ a) (b : Text) :
    splitOnce (· == c) (a ++ c :: b) = some (a, b) := by
  refine splitOnce_eq_some_iff.mpr ⟨c, beq_self_eq_true c, rfl, fun d hd => ?_⟩
  rw [beq_eq_false_iff_ne]
  rintro rfl
  exact h hd

theorem rsplitOnce_append_cons {c : Char} (a : Text) {b : Text} (h : c ∉ b) :
    rsplitOnce (· == c) (a ++ c :: b) = some (a, b) := by
  refine rsplitOnce_eq_some_iff.mpr ⟨c, beq_self_eq_true c, rfl, fun d hd => ?_⟩
  rw [beq_eq_false_iff_ne]
  rintro rfl
  exact h hd

end Text
