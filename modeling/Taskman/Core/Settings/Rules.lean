import Taskman.Core.Settings.Stable

/-!
# Rules among other settings

The rules are the last section of the saved text, one line for each, with the path and the rule in
JSON.  Whatever the paths are, these lines are read as the rules and nothing else, and whatever the
other settings are, none of their lines opens a section of rules.

* `Settings.Outside` : lines that do not open the section of rules;
* `parseIni_saveText` : the saved text is read as what the other settings say, and the rules;
* `foldl_addPreference_rules` : rules are added apart from other preferences;
* `mem_rules_read` : the rules that are read are those that were written;
* `fromIniText_saveText_rules` : **saving settings with some rules and loading the result gives
  exactly these rules, and otherwise what it gives without rules.**
-/

namespace Taskman

namespace Settings

/-- The section of the rules. -/
def ruleSection : Text := "process-rules".toList

/-! ### Lines that are no header -/

theorem readLine_ne_header_of_head {l : Text} {c : Char} (h : l.head? = some c)
    (hc : Text.isWhitespace c = false) (hne : c ≠ '[') (n : Text) : readLine l ≠ .header n := by
  have hhead : l.trim.head? = some c := by
    rw [Text.head?_trim (by rw [h]; rintro d ⟨⟩; exact hc), h]
  have hnone : l.trim.stripPrefix ['['] = none := by
    rw [Option.eq_none_iff_forall_not_mem]
    intro rest hrest
    rw [Option.mem_def, Text.stripPrefix_eq_some_iff] at hrest
    rw [hrest] at hhead
    exact hne (Option.some.inj hhead).symm
  unfold readLine
  dsimp only
  rw [hnone, Option.bind_none]
  dsimp only
  split_ifs
  · nofun
  · split <;> nofun

theorem readLine_ne_header_of_last {l : Text} {c : Char} (h : l.getLast? = some c)
    (hc : Text.isWhitespace c = false) (hne : c ≠ ']') (n : Text) : readLine l ≠ .header n := by
  have hlast : l.trim.getLast? = some c := Text.getLast?_trim h hc
  have hnone : (l.trim.stripPrefix ['[']).bind (Text.stripSuffix · [']']) = none := by
    rw [Option.bind_eq_none_iff]
    intro rest hrest
    rw [Option.eq_none_iff_forall_not_mem]
    intro name hname
    rw [Text.stripPrefix_eq_some_iff] at hrest
    rw [Option.mem_def, Text.stripSuffix_eq_some_iff] at hname
    rw [hrest, hname, ← List.append_assoc, List.getLast?_concat] at hlast
    exact hne (Option.some.inj hlast).symm
  unfold readLine
  dsimp only
  rw [hnone]
  dsimp only
  split_ifs
  · nofun
  · split <;> nofun

/-- A header in brackets, whatever the name. -/
theorem readLine_brackets (name : Text) :
    readLine ('[' :: (name ++ [']'])) = .header name.trim.toAsciiLowercase := by
  have htrim : Text.trim ('[' :: (name ++ [']'])) = '[' :: (name ++ [']']) := by
    refine Text.trim_eq_self ⟨?_, ?_⟩
    · rintro c ⟨⟩
      rfl
    · intro c hc
      rw [← List.cons_append, List.getLast?_concat] at hc
      obtain rfl := Option.some.inj hc
      rfl
  have hname : (Text.stripPrefix ('[' :: (name ++ [']'])) ['[']).bind (Text.stripSuffix · [']']) =
      some name := by
    rw [show Text.stripPrefix ('[' :: (name ++ [']'])) ['['] = some (name ++ [']']) from
      Text.stripPrefix_eq_some_iff.mpr rfl, Option.bind_some]
    exact Text.stripSuffix_eq_some_iff.mpr rfl
  unfold readLine
  simp only [htrim]
  rw [if_neg (by simp), hname]

/-- The line does not open the section of rules. -/
def Outside (l : Text) : Prop := ∀ n, readLine l = .header n → n ≠ ruleSection

theorem outside_of_isComment {l : Text} (h : IsComment l) : Outside l := by
  intro n hn
  rw [readLine_of_isComment h] at hn
  cases hn

/-- A header whose name begins with another letter. -/
theorem outside_brackets {name : Text} {c : Char} (h : name.head? = some c)
    (hc : Text.isWhitespace c = false) (hne : c.toLower ≠ 'p') :
    Outside ('[' :: (name ++ [']'])) := by
  intro n hn hrules
  rw [readLine_brackets] at hn
  obtain rfl := IniLine.header.inj hn
  have hhead := congrArg List.head? hrules
  rw [Text.toAsciiLowercase, List.head?_map, Text.head?_trim (by rw [h]; rintro d ⟨⟩; exact hc),
    h] at hhead
  exact hne (Option.some.inj hhead)

/-- What lines outside leave: they neither are in the section of rules nor have said anything about
it. -/
theorem foldl_iniStep_outside {ls : List Text} (h : ∀ l ∈ ls, Outside l) {st : Text × Ini}
    (hst : st.1 ≠ ruleSection ∧ ∀ (k : Text × Text) (v : Text), st.2[k]? = some v →
      k.1 ≠ ruleSection) :
    (ls.foldl iniStep st).1 ≠ ruleSection ∧ ∀ (k : Text × Text) (v : Text),
      (ls.foldl iniStep st).2[k]? = some v → k.1 ≠ ruleSection := by
  induction ls generalizing st with
  | nil => exact hst
  | cons l ls ih =>
    refine ih (fun m hm => h m (List.mem_cons_of_mem l hm)) ?_
    unfold iniStep
    cases hl : readLine l with
    | skip => exact hst
    | header n => exact ⟨h l List.mem_cons_self n hl, hst.2⟩
    | entry k v =>
      dsimp only
      split_ifs
      · exact ⟨hst.1, OrdMap.forall_getElem?_insert hst.2 hst.1⟩
      · exact hst

/-! ### The lines of the other settings -/

/-- No name of a table is more than one line. -/
structure TablesInLine (s : Settings) : Prop where
  widths : ∀ (table : Text) (cols : OrdMap Text F32), s.colWidths[table]? = some cols →
    '\n' ∉ table
  visible : ∀ (table : Text) (cols : OrdMap Text Bool), s.colVisible[table]? = some cols →
    '\n' ∉ table
  order : ∀ (table : Text) (ids : List Text), s.colOrder[table]? = some ids → '\n' ∉ table

/-- The sections of the saved text but for that of the rules. -/
def otherSections (s : Settings) : List IniSection :=
  s.generalSection :: (tableSections s.colWidths (·.isEmpty) widthsOf ++
    tableSections s.colVisible (·.isEmpty) visibleOf ++
    tableSections s.colOrder (·.isEmpty) orderOf ++
    if s.tableSort.isEmpty then [] else [sortOf s.tableSort])

theorem sections_eq (crates : SettingsCrates) (s : Settings) :
    s.sections crates = s.otherSections ++
      if s.savedRules = [] then [] else [rulesOf crates s.savedRules] := by
  simp only [sections, otherSections, List.cons_append, List.append_assoc]

/-- A line of the other sections: a single one, and not the header of the rules. -/
structure OtherLine (l : Text) : Prop where
  oneLine : '\n' ∉ l
  outside : Outside l

/-- A section that begins with another letter than that of the rules, with comments, and with
entries that cannot be headers, consists of such lines. -/
theorem otherLine_of_section {x : IniSection} {c : Char} (hname : x.name.head? = some c)
    (hc : Text.isWhitespace c = false) (hne : c.toLower ≠ 'p') (honeLine : '\n' ∉ x.name)
    (hcomments : ∀ l ∈ x.comments, IsComment l ∧ '\n' ∉ l)
    (hentries : ∀ p ∈ x.entries, '\n' ∉ p.1 ∧ '\n' ∉ p.2 ∧ ∀ n,
      readLine (p.1 ++ '=' :: p.2) ≠ .header n) : ∀ l ∈ x.lines, OtherLine l := by
  intro l hl
  rw [IniSection.lines, List.cons_append] at hl
  rcases List.mem_cons.mp hl with rfl | hl
  · exact ⟨by simpa using honeLine, outside_brackets hname hc hne⟩
  rcases List.mem_append.mp hl with hl | hl
  · exact ⟨(hcomments l hl).2, outside_of_isComment (hcomments l hl).1⟩
  · obtain ⟨p, hp, rfl⟩ := List.mem_map.mp hl
    obtain ⟨hkey, hvalue, hheader⟩ := hentries p hp
    exact ⟨by simpa using ⟨hkey, hvalue⟩, fun n hn => absurd hn (hheader n)⟩

/-- A width of any size is written with a digit in front, a point and a sign at most. -/
theorem mem_fmtWidth_range {w : F32} {c : Char} (hc : c ∈ fmtWidth w) :
    45 ≤ c.toNat ∧ c.toNat ≤ 57 := by
  have hfixed : ∀ d ∈ w.fixed 1, 45 ≤ d.toNat ∧ d.toNat ≤ 57 := by
    intro d hd
    refine toNat_of_isDigit ?_
    unfold F32.fixed F32.signText at hd
    split_ifs at hd
    · rcases List.mem_cons.mp hd with rfl | hd
      · exact Or.inr (Or.inr rfl)
      · exact (Text.mem_decimal hd).imp_right Or.inl
    · exact (Text.mem_decimal hd).imp_right Or.inl
  unfold fmtWidth at hc
  dsimp only at hc
  cases hsuf : Text.stripSuffix (w.fixed 1) ".0".toList with
  | none =>
    rw [hsuf] at hc
    exact hfixed c hc
  | some r =>
    rw [hsuf] at hc
    refine hfixed c ?_
    rw [Text.stripSuffix_eq_some_iff.mp hsuf]
    exact List.mem_append_left _ hc

theorem fmtWidth_ne_nil (w : F32) : fmtWidth w ≠ [] := by
  obtain ⟨c, t, hfixed, hc⟩ : ∃ c t, w.fixed 1 = c :: t ∧ c ≠ '.' := by
    obtain ⟨c, t, htext, hc⟩ := Text.exists_decimal_cons (roundHalfEven (|w.val| * 10 ^ 1)).toNat 1
    unfold F32.fixed F32.signText
    rw [htext]
    split_ifs
    · exact ⟨'-', c :: t, rfl, by decide⟩
    · refine ⟨c, t, rfl, ?_⟩
      rintro rfl
      exact absurd hc (by decide)
  unfold fmtWidth
  dsimp only
  cases hsuf : Text.stripSuffix (w.fixed 1) ".0".toList with
  | none => simp [hfixed]
  | some r =>
    rintro rfl
    have hdot := Text.stripSuffix_eq_some_iff.mp hsuf
    rw [hfixed, List.nil_append] at hdot
    exact hc (List.cons.inj hdot).1

theorem entry_ne_header {key raw : Text} {c : Char} (h : raw.getLast? = some c)
    (hc : Text.isWhitespace c = false) (hne : c ≠ ']') (n : Text) :
    readLine (key ++ '=' :: raw) ≠ .header n := by
  refine readLine_ne_header_of_last (c := c) ?_ hc hne n
  rw [List.getLast?_append, List.getLast?_cons, h]
  rfl

theorem width_ne_header (key : Text) (w : F32) (n : Text) :
    readLine (key ++ '=' :: fmtWidth w) ≠ .header n := by
  obtain ⟨c, hlast⟩ : ∃ c, (fmtWidth w).getLast? = some c :=
    ⟨_, List.getLast?_eq_some_getLast (fmtWidth_ne_nil w)⟩
  obtain ⟨hlo, hhi⟩ := mem_fmtWidth_range (List.mem_of_getLast? hlast)
  refine entry_ne_header hlast (Text.isWhitespace_eq_false_of_range (by omega) (by omega)) ?_ n
  rintro rfl
  exact absurd hhi (by decide)

theorem key_ne_header {key raw : Text} {c : Char} (h : key.head? = some c)
    (hc : Text.isWhitespace c = false) (hne : c ≠ '[') (n : Text) :
    readLine (key ++ '=' :: raw) ≠ .header n := by
  refine readLine_ne_header_of_head (c := c) ?_ hc hne n
  cases key with
  | nil => cases h
  | cons d key => exact h

theorem head_generalKeys : ∀ k ∈ generalKeys,
    k.toList.head?.any (fun c => !Text.isWhitespace c && c != '[') = true ∧ '\n' ∉ k.toList := by
  decide

theorem otherLine_generalSection {s : Settings} : ∀ l ∈ s.generalSection.lines, OtherLine l := by
  refine otherLine_of_section (c := 'g') rfl rfl (by decide)
    (show '\n' ∉ "general".toList by decide) (List.forall_mem_nil _) ?_
  intro q hq
  obtain ⟨p, hp, rfl⟩ := List.mem_map.mp hq
  have hmem : p.1 ∈ generalKeys := by
    rw [← map_fst_generalValues s]
    exact List.mem_map_of_mem hp
  obtain ⟨hhead, hline⟩ := head_generalKeys p.1 hmem
  obtain ⟨c, hc, hplain⟩ := (Option.any_eq_true _ _).mp hhead
  obtain ⟨hspace, hne⟩ : Text.isWhitespace c = false ∧ c ≠ '[' := by simpa using hplain
  exact ⟨hline, newline_notMem_escapeIni p.2, key_ne_header hc hspace hne⟩

theorem otherLine_widthsOf {table : Text} (h : '\n' ∉ table) (cols : OrdMap Text F32) :
    ∀ l ∈ (widthsOf table cols).lines, OtherLine l := by
  refine otherLine_of_section (c := 'c') rfl rfl (by decide) ?_
    (List.forall_mem_singleton.mpr ⟨Or.inr rfl, by decide⟩) ?_
  · show '\n' ∉ "columns.".toList ++ table
    simpa using h
  · intro q hq
    obtain ⟨p, -, rfl⟩ := List.mem_map.mp hq
    refine ⟨newline_notMem_escapeIni _, fun hmem => ?_, width_ne_header _ _⟩
    exact absurd (mem_fmtWidth_range hmem).1 (by decide)

theorem otherLine_visibleOf {table : Text} (h : '\n' ∉ table) (cols : OrdMap Text Bool) :
    ∀ l ∈ (visibleOf table cols).lines, OtherLine l := by
  refine otherLine_of_section (c := 'c') rfl rfl (by decide) ?_
    (List.forall_mem_singleton.mpr ⟨Or.inr rfl, by decide⟩) ?_
  · show '\n' ∉ "columns.".toList ++ table ++ ".visible".toList
    simpa using h
  · intro q hq
    obtain ⟨⟨col, on⟩, -, rfl⟩ := List.mem_map.mp hq
    refine ⟨newline_notMem_escapeIni _, (readable_visibleText on).2.1, ?_⟩
    cases on with
    | false => exact entry_ne_header (c := '0') rfl rfl (by decide)
    | true => exact entry_ne_header (c := '1') rfl rfl (by decide)

theorem otherLine_orderOf {table : Text} (h : '\n' ∉ table) (ids : List Text) :
    ∀ l ∈ (orderOf table ids).lines, OtherLine l := by
  refine otherLine_of_section (c := 'c') rfl rfl (by decide) ?_ (List.forall_mem_nil _) ?_
  · show '\n' ∉ "columns.".toList ++ table ++ ".order".toList
    simpa using h
  · refine List.forall_mem_singleton.mpr
      ⟨show '\n' ∉ "order".toList by decide, newline_notMem_escapeIni _, ?_⟩
    exact key_ne_header (c := 'o') rfl rfl (by decide)

theorem otherLine_sortOf (sort : OrdMap Text SortPreference) :
    ∀ l ∈ (sortOf sort).lines, OtherLine l := by
  refine otherLine_of_section (c := 's') rfl rfl (by decide)
    (show '\n' ∉ "sort".toList by decide) (List.forall_mem_singleton.mpr ⟨Or.inr rfl, by decide⟩) ?_
  intro q hq
  obtain ⟨⟨table, preference⟩, -, rfl⟩ := List.mem_map.mp hq
  dsimp only
  rw [← escapeIni_sort]
  refine ⟨newline_notMem_escapeIni _, newline_notMem_escapeIni _, ?_⟩
  rw [escapeIni_sort]
  refine entry_ne_header (c := 'e') ?_ rfl (by decide)
  rw [List.getLast?_append, List.getLast?_cons]
  cases preference.ascending <;> rfl

/-- **No line of the other settings is the header of the rules.** -/
theorem otherLine_of_mem {s : Settings} (h : s.TablesInLine) :
    ∀ l ∈ front ++ sectionLines s.otherSections, OtherLine l := by
  have hsection : ∀ x ∈ s.otherSections, ∀ l ∈ x.lines, OtherLine l := by
    intro x hx
    rcases List.mem_cons.mp hx with rfl | hx
    · exact otherLine_generalSection
    simp only [List.mem_append] at hx
    rcases hx with ((hx | hx) | hx) | hx
    · obtain ⟨table, cols, htable, -, rfl⟩ := mem_tableSections.mp hx
      exact otherLine_widthsOf (h.widths table cols htable) cols
    · obtain ⟨table, cols, htable, -, rfl⟩ := mem_tableSections.mp hx
      exact otherLine_visibleOf (h.visible table cols htable) cols
    · obtain ⟨table, ids, htable, -, rfl⟩ := mem_tableSections.mp hx
      exact otherLine_orderOf (h.order table ids htable) ids
    · split_ifs at hx
      · cases hx
      · obtain rfl := List.mem_singleton.mp hx
        exact otherLine_sortOf _
  intro l hl
  rcases List.mem_append.mp hl with hl | hl
  · exact ⟨(isComment_front l hl).2, outside_of_isComment (isComment_front l hl).1⟩
  · obtain ⟨x, hx, hl⟩ := List.mem_flatMap.mp hl
    rcases List.mem_cons.mp hl with rfl | hl
    · exact ⟨List.not_mem_nil, outside_of_isComment (Or.inl rfl)⟩
    · exact hsection x hx l hl

/-! ### What the saved text is read as -/

/-- What the other sections are read as. -/
def otherIni (s : Settings) : Ini :=
  ((front ++ sectionLines s.otherSections).foldl iniStep ([], ∅)).2

theorem otherIni_section {s : Settings} (h : s.TablesInLine) {k : Text × Text} {v : Text}
    (hk : s.otherIni[k]? = some v) : k.1 ≠ ruleSection := by
  have hstart : ([] : Text) ≠ ruleSection ∧ ∀ (k : Text × Text) (v : Text),
      (∅ : Ini)[k]? = some v → k.1 ≠ ruleSection := ⟨by decide, by simp⟩
  exact (foldl_iniStep_outside (fun l hl => (otherLine_of_mem h l hl).outside) hstart).2 k v hk

/-- **The saved text is read as the other settings, and then the rules.** -/
theorem parseIni_saveText {crates : SettingsCrates}
    (hcrates : ∀ p, Text.Trimmed (crates.ruleToString p)) {s : Settings} (h : s.TablesInLine) :
    parseIni (saveText crates s) = s.otherIni.add (rulesOf crates s.savedRules).values := by
  -- the section of the rules is left out when it is empty, which makes no difference
  have hread : ∀ x ∈ (if s.savedRules = [] then [] else [rulesOf crates s.savedRules]),
      x.Readable := by
    intro x hx
    split_ifs at hx
    · cases hx
    · obtain rfl := List.mem_singleton.mp hx
      exact readable_rulesOf hcrates _
  have hvalues : (if s.savedRules = [] then [] else [rulesOf crates s.savedRules]).flatMap
      IniSection.values = (rulesOf crates s.savedRules).values := by
    split_ifs with hnil
    · rw [hnil]
      rfl
    · exact List.flatMap_singleton _ _
  have hlines : ∀ l ∈ front ++ sectionLines (s.sections crates), '\n' ∉ l := by
    rw [sections_eq, sectionLines, List.flatMap_append, ← List.append_assoc]
    intro l hl
    rcases List.mem_append.mp hl with hl | hl
    · exact (otherLine_of_mem h l hl).oneLine
    · obtain ⟨x, hx, hl⟩ := List.mem_flatMap.mp hl
      rcases List.mem_cons.mp hl with rfl | hl
      · exact List.not_mem_nil
      · exact newline_notMem_lines (hread x hx) l hl
  rw [saveText_eq, parseIni, Text.lines_unlines hlines, List.foldl_map]
  simp only [iniStep_stripCr]
  have hsplit : front ++ sectionLines (s.sections crates) =
      front ++ sectionLines s.otherSections ++
        sectionLines (if s.savedRules = [] then [] else [rulesOf crates s.savedRules]) := by
    rw [sections_eq, sectionLines, List.flatMap_append, ← List.append_assoc]
    rfl
  rw [hsplit, List.foldl_append, foldl_sectionLines hread, hvalues, otherIni]

/-! ### Rules apart -/

/-- The rule of a preference. -/
def Preference.rule? : Preference → Option (Text × ProcessRule)
  | .rule path r => some (path, r)
  | _ => none

theorem Preference.rule?_eq_some_iff {p : Preference} {path : Text} {r : ProcessRule} :
    p.rule? = some (path, r) ↔ p = .rule path r := by
  cases p <;> simp [Preference.rule?]

/-- Settings with other rules. -/
def withRules (s : Settings) (rules : OrdMap Text ProcessRule) : Settings :=
  { s with processRules := rules }

theorem eq_withRules {s t : Settings} (h : s.withRules ∅ = t.withRules ∅) :
    s = t.withRules s.processRules := by
  have hwith := congrArg (fun u : Settings => u.withRules s.processRules) h
  exact hwith

/-- **Rules are added apart from other preferences.** -/
theorem foldl_addPreference_rules (ps : List Preference) (s : Settings) :
    (ps.foldl addPreference s).withRules ∅ =
        (ps.filter (·.rule?.isNone)).foldl addPreference (s.withRules ∅) ∧
      (ps.foldl addPreference s).processRules =
        (ps.filterMap Preference.rule?).foldl (fun m p => m.insert p.1 p.2) s.processRules := by
  induction ps generalizing s with
  | nil => exact ⟨rfl, rfl⟩
  | cons p ps ih =>
    obtain ⟨hothers, hrules⟩ := ih (s.addPreference p)
    rw [List.foldl_cons, hothers, hrules]
    cases p with
    | rule => exact ⟨rfl, rfl⟩
    | sort => exact ⟨rfl, rfl⟩
    | visible => exact ⟨rfl, rfl⟩
    | order => exact ⟨rfl, rfl⟩
    | width => exact ⟨rfl, rfl⟩

section Reading

variable {crates : SettingsCrates}

theorem sectionKind_eq_rules_iff {sec : Text} : sectionKind sec = .rules ↔ sec = ruleSection := by
  constructor
  · intro h
    by_contra hsec
    have hrules : sec ≠ "process-rules".toList := hsec
    unfold sectionKind at h
    rw [if_neg hrules] at h
    split_ifs at h
    split at h
    · cases h
    split at h
    · split_ifs at h
    · cases h
  · rintro rfl
    exact sectionKind_rules

/-- Rules are read from sections of their kind only, and nothing else is. -/
theorem isNone_rule?_of_readKind {kind : SectionKind} {key value : Text} {p : Preference}
    (h : readKind crates kind key value = some p) : p.rule?.isNone = decide (kind ≠ .rules) := by
  cases kind with
  | other => cases h
  | sort =>
    dsimp only [readKind, readSort] at h
    split at h
    · cases h
    · split_ifs at h
      obtain ⟨ascending, -, rfl⟩ := Option.map_eq_some_iff.mp h
      rfl
  | rules =>
    obtain ⟨-, h⟩ := Option.ite_none_right_eq_some.mp h
    unfold readRule at h
    split at h
    · split_ifs at h
      obtain rfl := Option.some.inj h
      rfl
    · cases h
  | visible table =>
    obtain ⟨on, -, rfl⟩ := Option.map_eq_some_iff.mp h
    rfl
  | order table =>
    dsimp only [readKind, readOrder] at h
    split_ifs at h
    obtain rfl := Option.some.inj h
    rfl
  | width table =>
    dsimp only [readKind, readWidth] at h
    split_ifs at h
    obtain ⟨w, -, rfl⟩ := Option.map_eq_some_iff.mp h
    rfl

theorem isNone_rule?_of_readPreference {e : (Text × Text) × Text} {p : Preference}
    (h : readPreference crates e = some p) :
    p.rule?.isNone = decide (e.1.1 ≠ ruleSection) := by
  rw [readPreference_eq] at h
  rw [isNone_rule?_of_readKind h, decide_eq_decide, Ne, sectionKind_eq_rules_iff]

theorem loadGeneral_congr {kv kv' : Ini} (h : ∀ key, general kv key = general kv' key) :
    loadGeneral crates kv = loadGeneral crates kv' := by
  unfold loadGeneral flag
  simp only [h]

/-- The old positional widths are outside the section of the rules. -/
theorem foldl_migrate_filter (es : List ((Text × Text) × Text)) (m : PerColumn F32) :
    (es.filter (·.1.1 ≠ ruleSection)).foldl migrate m = es.foldl migrate m := by
  induction es generalizing m with
  | nil => rfl
  | cons e es ih =>
    by_cases he : e.1.1 = ruleSection
    · have hcolumns : e.1.1 ≠ "columns".toList := by
        rw [he]
        decide
      have hlegacy : legacyWidths e = [] := if_neg hcolumns
      rw [List.filter_cons_of_neg (by simpa using he), List.foldl_cons, migrate, if_pos hlegacy, ih]
    · rw [List.filter_cons_of_pos (by simpa using he), List.foldl_cons, List.foldl_cons, ih]

variable {s : Settings} {rules : List (Text × ProcessRule)}

/-- The rules stand beside what the other sections are read as. -/
theorem getElem?_add_rules (h : s.TablesInLine) {k : Text × Text} {v : Text} :
    (s.otherIni.add (rulesOf crates rules).values)[k]? = some v ↔
      (k, v) ∈ (rulesOf crates rules).values ∨ s.otherIni[k]? = some v := by
  have hsection : ∀ e ∈ (rulesOf crates rules).values, e.1.1 = ruleSection := by
    intro e he
    obtain ⟨index, p, -, rfl⟩ := mem_values_rules.mp he
    rfl
  have hfun : ∀ p ∈ (rulesOf crates rules).values, ∀ q ∈ (rulesOf crates rules).values,
      p.1 = q.1 → p.2 = q.2 := by
    intro p hp q hq hpq
    obtain ⟨i, a, ha, rfl⟩ := mem_values_rules.mp hp
    obtain ⟨j, b, hb, rfl⟩ := mem_values_rules.mp hq
    -- rules are numbered by their place
    rw [Prod.mk.injEq, List.append_cancel_left_eq] at hpq
    rw [← Text.digits_injective hpq.2, ha, Option.some.injEq] at hb
    rw [hb]
  rw [Ini.add, OrdMap.getElem?_foldl_insert_iff hfun]
  refine or_congr_right (and_iff_right_of_imp fun hk e he heq => ?_)
  exact otherIni_section h hk (heq ▸ hsection e he)

/-- Outside the section of the rules nothing else is read than without rules. -/
theorem filter_toList_add_rules (h : s.TablesInLine) :
    (s.otherIni.add (rulesOf crates rules).values).toList.filter (·.1.1 ≠ ruleSection) =
      s.otherIni.toList := by
  have hfilter : (s.otherIni.add (rulesOf crates rules).values).filter
      (fun k _ => decide (k.1 ≠ ruleSection)) = s.otherIni := by
    refine OrdMap.ext fun k => Option.ext fun v => ?_
    rw [Std.ExtTreeMap.getElem?_filter', Option.filter_eq_some_iff, getElem?_add_rules h,
      decide_eq_true_iff]
    constructor
    · rintro ⟨hmem | hk, hsec⟩
      · obtain ⟨index, p, -, heq⟩ := mem_values_rules.mp hmem
        rw [(Prod.mk.inj heq).1] at hsec
        exact absurd rfl hsec
      · exact hk
    · exact fun hk => ⟨Or.inr hk, otherIni_section h hk⟩
  rw [← hfilter, Std.ExtTreeMap.toList_filter, hfilter]

/-- The rules that are read are those that were written. -/
theorem mem_rules_read (hcrates : crates.Lawful) (h : s.TablesInLine)
    (hrules : ∀ p ∈ rules, Text.trim p.1 ≠ [] ∧ p.2.isEmpty = false) {p : Text × ProcessRule} :
    p ∈ ((s.otherIni.add (rulesOf crates rules).values).toList.filterMap
        (readPreference crates)).filterMap Preference.rule? ↔ p ∈ rules := by
  obtain ⟨path, r⟩ := p
  simp only [List.mem_filterMap, Preference.rule?_eq_some_iff, exists_eq_right]
  constructor
  · rintro ⟨⟨k, v⟩, he, hread⟩
    have hsec : k.1 = ruleSection := by
      simpa [Preference.rule?] using isNone_rule?_of_readPreference hread
    rw [Std.ExtTreeMap.mem_toList_iff_getElem?_eq_some, getElem?_add_rules h] at he
    rcases he with he | he
    · obtain ⟨index, q, hq, heq⟩ := mem_values_rules.mp he
      obtain ⟨rfl, rfl⟩ := Prod.mk.inj heq
      rw [readPreference_rules, if_pos (List.prefix_append _ _), readRule,
        hcrates.ruleFromStr_ruleToString] at hread
      obtain ⟨-, hread⟩ := Option.ite_none_right_eq_some.mp hread
      obtain ⟨rfl, rfl⟩ := Preference.rule.inj (Option.some.inj hread)
      exact List.mem_of_getElem? hq
    · exact absurd hsec (otherIni_section h he)
  · intro hmem
    obtain ⟨index, hindex⟩ := List.mem_iff_getElem?.mp hmem
    refine ⟨(("process-rules".toList, "rule.".toList ++ Text.digits index),
      crates.ruleToString (path, r)), ?_, ?_⟩
    · rw [Std.ExtTreeMap.mem_toList_iff_getElem?_eq_some, getElem?_add_rules h]
      exact Or.inl (mem_values_rules.mpr ⟨index, (path, r), hindex, rfl⟩)
    · rw [readPreference_rules, if_pos (List.prefix_append _ _), readRule,
        hcrates.ruleFromStr_ruleToString]
      exact if_pos (hrules (path, r) hmem)

/-- What the rest of the text is read as, before the migration and the geometry. -/
theorem addPreferences_add_rules (crates : SettingsCrates) (rules : List (Text × ProcessRule))
    (h : s.TablesInLine) :
    (((s.otherIni.add (rulesOf crates rules).values).toList.filterMap
      (readPreference crates)).foldl addPreference
        (loadGeneral crates (s.otherIni.add (rulesOf crates rules).values))).withRules ∅ =
      ((s.otherIni.toList.filterMap (readPreference crates)).foldl addPreference
        (loadGeneral crates s.otherIni)).withRules ∅ := by
  have hgeneral : loadGeneral crates (s.otherIni.add (rulesOf crates rules).values) =
      loadGeneral crates s.otherIni := by
    refine loadGeneral_congr fun key => Option.ext fun v => ?_
    rw [general, general, getElem?_add_rules h]
    refine or_iff_right fun hmem => ?_
    obtain ⟨index, p, -, heq⟩ := mem_values_rules.mp hmem
    have hsec : "general".toList = "process-rules".toList :=
      (Prod.mk.inj (Prod.mk.inj heq).1).1
    exact absurd hsec (by decide)
  -- without the rules the same preferences are left
  have hothers : ∀ es : List ((Text × Text) × Text),
      (es.filterMap (readPreference crates)).filter (·.rule?.isNone) =
        (es.filter (·.1.1 ≠ ruleSection)).filterMap (readPreference crates) := by
    intro es
    rw [List.filter_filterMap, List.filterMap_filter]
    refine List.filterMap_congr fun e _ => ?_
    cases hread : readPreference crates e with
    | none => simp
    | some p =>
      rw [Option.filter_some, isNone_rule?_of_readPreference hread]
  have hnone : s.otherIni.toList.filter (·.1.1 ≠ ruleSection) = s.otherIni.toList :=
    List.filter_eq_self.mpr fun e he => decide_eq_true
      (otherIni_section h (Std.ExtTreeMap.mem_toList_iff_getElem?_eq_some.mp he))
  rw [(foldl_addPreference_rules _ _).1, (foldl_addPreference_rules _ _).1, hothers, hothers,
    filter_toList_add_rules h, hnone, hgeneral]

/-- The rules that the loop of additions leaves. -/
theorem processRules_add_rules (hcrates : crates.Lawful) (h : s.TablesInLine)
    {rules : OrdMap Text ProcessRule}
    (hrules : ∀ (path : Text) (r : ProcessRule), rules[path]? = some r →
      Text.trim path ≠ [] ∧ r.isEmpty = false) :
    (((s.otherIni.add (rulesOf crates rules.toList).values).toList.filterMap
      (readPreference crates)).foldl addPreference
        (loadGeneral crates (s.otherIni.add (rulesOf crates rules.toList).values))).processRules =
      rules := by
  have hmem : ∀ p : Text × ProcessRule,
      p ∈ ((s.otherIni.add (rulesOf crates rules.toList).values).toList.filterMap
        (readPreference crates)).filterMap Preference.rule? ↔ rules[p.1]? = some p.2 := by
    intro p
    rw [mem_rules_read hcrates h fun q hq => hrules q.1 q.2
      (Std.ExtTreeMap.mem_toList_iff_getElem?_eq_some.mp hq),
      Std.ExtTreeMap.mem_toList_iff_getElem?_eq_some]
  rw [(foldl_addPreference_rules _ _).2]
  refine OrdMap.ext fun path => Option.ext fun r => ?_
  show (List.foldl _ (∅ : OrdMap Text ProcessRule) _)[path]? = some r ↔ _
  rw [OrdMap.getElem?_foldl_insert_empty_iff, hmem]
  intro p hp q hq hpq
  rw [hmem] at hp hq
  rw [hpq, hq] at hp
  exact (Option.some.inj hp).symm

end Reading

/-! ### Saving and loading rules -/

/-- Names of tables that were read from a text are single lines. -/
theorem LoadedTables.tablesInLine {s : Settings} (h : s.LoadedTables) : s.TablesInLine where
  widths table cols hcols hmem := by
    obtain ⟨col, w, hw⟩ := OrdMap.isEmpty_eq_false_iff.mp (h.widths table cols hcols).1
    exact ((h.widths table cols hcols).2 col w hw).1.name.oneLine (List.mem_append_right _ hmem)
  visible table cols hcols hmem := by
    obtain ⟨col, on, hon⟩ := OrdMap.isEmpty_eq_false_iff.mp (h.visible table cols hcols).1
    exact ((h.visible table cols hcols).2 col on hon).1.oneLine
      (List.mem_append_left _ (List.mem_append_right _ hmem))
  order table ids hids hmem :=
    (h.order table ids hids).1.oneLine (List.mem_append_left _ (List.mem_append_right _ hmem))

theorem savedRules_eq {s : Settings} (h : ∀ (path : Text) (r : ProcessRule),
    s.processRules[path]? = some r → Text.trim path ≠ [] ∧ r.isEmpty = false) :
    s.savedRules = s.processRules.toList :=
  List.filter_eq_self.mpr fun p hp => decide_eq_true
    (h p.1 p.2 (Std.ExtTreeMap.mem_toList_iff_getElem?_eq_some.mp hp)).2

theorem fromIniText_of_parseIni {crates : SettingsCrates} (hcrates : crates.Lawful)
    {s : Settings} (hlines : s.TablesInLine) {rules : OrdMap Text ProcessRule}
    (hrules : ∀ (path : Text) (r : ProcessRule), rules[path]? = some r →
      Text.trim path ≠ [] ∧ r.isEmpty = false) {text rest : Text}
    (htext : parseIni text = s.otherIni.add (rulesOf crates rules.toList).values)
    (hrest : parseIni rest = s.otherIni) :
    fromIniText crates text = (fromIniText crates rest).withRules rules := by
  have hloaded := eq_withRules (addPreferences_add_rules crates rules.toList hlines)
  rw [processRules_add_rules hcrates hlines hrules] at hloaded
  have hwidths : ∀ m, (s.otherIni.add (rulesOf crates rules.toList).values).toList.foldl migrate m =
      s.otherIni.toList.foldl migrate m := by
    intro m
    rw [← foldl_migrate_filter, filter_toList_add_rules hlines]
  have hwith : ∀ loaded : Settings, (loaded.withRules rules).colWidths = loaded.colWidths ∧
      (loaded.withRules rules).rememberWindow = loaded.rememberWindow := fun _ => ⟨rfl, rfl⟩
  unfold fromIniText
  dsimp only
  rw [htext, hrest, hloaded]
  -- the geometry is decided by a setting that the rules leave alone
  simp only [hwith, hwidths]
  split_ifs
  · rfl
  · rfl

/-- **Process rules survive any text.**  Whatever the paths are, as long as they are not blank and
their rules say something, loading what was saved gives back exactly these rules, and every other
setting as if there were none. -/
theorem fromIniText_saveText_rules {crates : SettingsCrates} (hcrates : crates.Lawful)
    {s : Settings} (hlines : s.TablesInLine) {rules : OrdMap Text ProcessRule}
    (hrules : ∀ (path : Text) (r : ProcessRule), rules[path]? = some r →
      Text.trim path ≠ [] ∧ r.isEmpty = false) :
    fromIniText crates (saveText crates (s.withRules rules)) =
      (fromIniText crates (saveText crates (s.withRules ∅))).withRules rules := by
  have hline : ∀ rules, (s.withRules rules).TablesInLine := fun _ =>
    ⟨hlines.widths, hlines.visible, hlines.order⟩
  refine fromIniText_of_parseIni hcrates hlines hrules ?_ ?_
  · rw [parseIni_saveText hcrates.trimmed_ruleToString (hline rules), savedRules_eq hrules]
    rfl
  · have hnone : (s.withRules ∅).savedRules = [] := rfl
    rw [parseIni_saveText hcrates.trimmed_ruleToString (hline ∅), hnone]
    rfl

/-- A path with the marks of comments, entries and sections. -/
def samplePath : Text := "c:;a=b[#\x7bé]".toList

theorem fromIniText_saveText_rules_sample :
    fromIniText jsonCrates (saveText jsonCrates ((fromIniText jsonCrates sampleText).withRules
        ((∅ : OrdMap Text ProcessRule).insert samplePath { priority := some .high }))) =
      (fromIniText jsonCrates (saveText jsonCrates
        ((fromIniText jsonCrates sampleText).withRules ∅))).withRules
          ((∅ : OrdMap Text ProcessRule).insert samplePath { priority := some .high }) :=
  fromIniText_saveText_rules lawful_jsonCrates
    (loaded_fromIniText sampleText).toLoadedTables.tablesInLine fun path r h => by
      refine OrdMap.forall_getElem?_insert (m := (∅ : OrdMap Text ProcessRule))
        (P := fun path r => Text.trim path ≠ [] ∧ r.isEmpty = false) ?_ (by decide) path r h
      intro k v hv
      rw [Std.ExtTreeMap.getElem?_empty] at hv
      cases hv

end Settings

end Taskman
