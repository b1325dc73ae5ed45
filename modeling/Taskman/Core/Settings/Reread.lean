import Taskman.Core.Settings.Saved

/-!
# Reading the saved text

The sections of the saved text are readable, and no two of its entries share a key, so the reader
finds each entry under its key.

* `readable_of_mem_sections` : each section comes back;
* `sectionKind` : what a section is about, by its name;
* `SavedEntry.valueOf`, `ValueOf.unique` : an entry by the kind of its section, and its one value;
* `getElem?_parseIni_saveText` : **the saved text is read as its entries**.
-/

namespace Taskman

namespace Settings

variable {crates : SettingsCrates} {s : Settings}

/-! ### Characters of values -/

/-- The characters that numbers are written with. -/
theorem toNat_of_isDigit {c : Char} (h : c.isDigit ∨ c = '.' ∨ c = '-') :
    45 ≤ c.toNat ∧ c.toNat ≤ 57 := by
  rcases h with h | rfl | rfl
  · have hlo : 48 ≤ c.toNat := (Char.isDigit_iff_toNat.mp h).1
    have hhi : c.toNat ≤ 57 := (Char.isDigit_iff_toNat.mp h).2
    omega
  · decide
  · decide

theorem toNat_of_mem_display {x : F32} {c : Char} (h : c ∈ x.display) :
    45 ≤ c.toNat ∧ c.toNat ≤ 57 := by
  refine toNat_of_isDigit ?_
  have hunits : ∀ {d : ℕ} {e : ℤ}, c ∈ F32.unitsText d e → c.isDigit ∨ c = '.' := by
    intro d e hc
    unfold F32.unitsText at hc
    split_ifs at hc
    · exact Text.mem_decimal hc
    · exact Text.mem_decimal hc
  unfold F32.display F32.signText at h
  split_ifs at h
  · rcases List.mem_cons.mp h with h | h
    · exact Or.inr (Or.inr h)
    · exact (hunits h).imp_right Or.inl
  · exact (hunits h).imp_right Or.inl

theorem trimmed_of_number {t : Text} (h : ∀ c ∈ t, 45 ≤ c.toNat ∧ c.toNat ≤ 57) :
    Text.Trimmed t := by
  refine Text.trimmed_of_forall fun c hc => ?_
  have hrange := h c hc
  exact Text.isWhitespace_eq_false_of_range (by omega) (by omega)

theorem notMem_of_number {t : Text} (h : ∀ c ∈ t, 45 ≤ c.toNat ∧ c.toNat ≤ 57) {d : Char}
    (hd : d.toNat < 45 ∨ 57 < d.toNat) : d ∉ t := by
  intro hmem
  have := h d hmem
  omega

theorem trimmed_digits (n : ℕ) : Text.Trimmed (Text.digits n) :=
  trimmed_of_number fun _ hc => toNat_of_isDigit (Or.inl (Text.isDigit_of_mem_digits hc))

theorem trimmed_display (x : F32) : Text.Trimmed x.display :=
  trimmed_of_number fun _ => toNat_of_mem_display

theorem trimmed_boolText (b : Bool) : Text.Trimmed (boolText b) := by
  cases b <;> decide

/-! ### The general section -/

/-- The keys of the general section. -/
def generalKeys : List String :=
  ["save_config", "language", "theme", "update_speed", "always_on_top", "graph_seconds", "ui_zoom",
    "remember_window", "window_size", "default_start_page", "sidebar_collapsed", "perf_card_width",
    "cpu_graph_mode", "gpu_graph_mode", "show_kernel_times", "wifi_details", "perf_selected_key",
    "details_tree_hierarchical", "close_to_tray", "start_with_windows", "start_elevated",
    "text_smoothing", "render_mode"]

theorem map_fst_generalValues (s : Settings) : s.generalValues.map Prod.fst = generalKeys := rfl

theorem isKey_generalKeys : ∀ k ∈ generalKeys, IsKey k.toList ∧ k.toList.head? ≠ some '[' := by
  decide

theorem trimmed_of_startPageOf {v page : Text} (h : startPageOf v = some page) :
    Text.Trimmed page := by
  unfold startPageOf at h
  dsimp only at h
  split_ifs at h
  rw [← Option.some.inj h]
  exact (Text.trimmed_trim v).toAsciiLowercase

theorem trimmed_of_cpuGraphModeOf {v mode : Text} (h : cpuGraphModeOf v = some mode) :
    Text.Trimmed mode := by
  unfold cpuGraphModeOf at h
  dsimp only at h
  split_ifs at h
  rw [← Option.some.inj h]
  exact (Text.trimmed_trim v).toAsciiLowercase

theorem trimmed_of_perfSelectedKeyOf {v key : Text} (h : perfSelectedKeyOf v = some key) :
    Text.Trimmed key := by
  unfold perfSelectedKeyOf at h
  dsimp only at h
  split_ifs at h
  rw [← Option.some.inj h]
  exact Text.trimmed_trim v

theorem trimmed_generalValues (h : s.LoadedGeneral crates) :
    ∀ p ∈ s.generalValues, Text.Trimmed p.2 := by
  have hpage := trimmed_of_startPageOf h.startPage
  have hcpu := trimmed_of_cpuGraphModeOf h.cpuGraphMode
  have hkey := trimmed_of_perfSelectedKeyOf h.perfSelectedKey
  have hsize : Text.Trimmed (writeWindowSize s.windowSize) :=
    (trimmed_display _).join (by decide) (trimmed_display _)
  have hlanguage : Text.Trimmed s.language.asCfg := by cases s.language <;> decide
  have htheme : Text.Trimmed s.theme.asCfg := by cases s.theme <;> decide
  have hspeed : Text.Trimmed s.updateSpeed.asCfg := by cases s.updateSpeed <;> decide
  have hsmoothing : Text.Trimmed s.textSmoothing.asCfg := by
    cases s.textSmoothing <;> decide
  have hrender : Text.Trimmed s.renderMode.asCfg := by cases s.renderMode <;> decide
  unfold generalValues
  simp only [List.forall_mem_cons, List.not_mem_nil, false_imp_iff, implies_true,
    trimmed_boolText, trimmed_digits, trimmed_display, hpage, hcpu, hkey, hsize, hlanguage, htheme,
    hspeed, hsmoothing, hrender, h.gpuGraphMode.1, and_self]

theorem readable_generalSection (h : s.LoadedGeneral crates) : s.generalSection.Readable where
  name := show IsName "general".toList by decide
  name_ne_nil := List.cons_ne_nil _ _
  comments := List.forall_mem_nil _
  entries := by
    intro q hq
    obtain ⟨p, hp, rfl⟩ := List.mem_map.mp hq
    have hmem : p.1 ∈ generalKeys := by
      rw [← map_fst_generalValues s]
      exact List.mem_map_of_mem hp
    obtain ⟨hkey, hhead⟩ := isKey_generalKeys p.1 hmem
    exact ⟨hkey, trimmed_escapeIni (trimmed_generalValues h p hp), newline_notMem_escapeIni p.2,
      Or.inl hhead⟩

/-! ### The other sections -/

theorem not_header_of_last {key raw : Text} {c : Char} (h : raw.getLast? = some c)
    (hc : c ≠ ']') : NotHeader key raw := by
  refine Or.inr ?_
  rw [h]
  exact fun heq => hc (Option.some.inj heq)

theorem readable_widthsOf {table : Text} {cols : OrdMap Text F32}
    (htable : ∀ (col : Text) (w : F32), cols[col]? = some w →
      (Preference.width table col w).Valid ∧ Plain col) (hne : cols.isEmpty = false) :
    (widthsOf table cols).Readable where
  name := by
    obtain ⟨col, w, hw⟩ := OrdMap.isEmpty_eq_false_iff.mp hne
    exact (htable col w hw).1.1.name
  name_ne_nil := List.cons_ne_nil _ _
  comments := List.forall_mem_singleton.mpr ⟨Or.inr rfl, by decide⟩
  entries := by
    intro q hq
    obtain ⟨⟨col, w⟩, hp, rfl⟩ := List.mem_map.mp hq
    obtain ⟨⟨-, hkey, hrange⟩, hplain⟩ :=
      htable col w (Std.ExtTreeMap.mem_toList_iff_getElem?_eq_some.mp hp)
    have hnumber : ∀ c ∈ fmtWidth w, 45 ≤ c.toNat ∧ c.toNat ≤ 57 := fun c hc =>
      toNat_of_isDigit ((mem_fmtWidth hrange hc).imp_right Or.inl)
    dsimp only
    rw [escapeIni_of_plain hplain]
    refine ⟨hkey, trimmed_of_number hnumber, notMem_of_number hnumber (Or.inl (by decide)),
      Or.inr fun hlast => ?_⟩
    exact notMem_of_number hnumber (Or.inr (by decide)) (List.mem_of_getLast? hlast)

theorem readable_visibleText (on : Bool) :
    Text.Trimmed (if on then "1".toList else "0".toList) ∧
      '\n' ∉ (if on then "1".toList else "0".toList) ∧
      (if on then "1".toList else "0".toList).getLast? ≠ some ']' := by
  cases on <;> decide

theorem readable_visibleOf {table : Text} {cols : OrdMap Text Bool}
    (htable : ∀ (col : Text) (on : Bool), cols[col]? = some on →
      (Preference.visible table col on).Valid ∧ Plain col) (hne : cols.isEmpty = false) :
    (visibleOf table cols).Readable where
  name := by
    obtain ⟨col, on, hon⟩ := OrdMap.isEmpty_eq_false_iff.mp hne
    exact (htable col on hon).1.1
  name_ne_nil := List.cons_ne_nil _ _
  comments := List.forall_mem_singleton.mpr ⟨Or.inr rfl, by decide⟩
  entries := by
    intro q hq
    obtain ⟨⟨col, on⟩, hp, rfl⟩ := List.mem_map.mp hq
    obtain ⟨⟨-, hkey⟩, hplain⟩ :=
      htable col on (Std.ExtTreeMap.mem_toList_iff_getElem?_eq_some.mp hp)
    dsimp only
    rw [escapeIni_of_plain hplain]
    obtain ⟨htrimmed, hline, hlast⟩ := readable_visibleText on
    exact ⟨hkey, htrimmed, hline, Or.inr hlast⟩

theorem trimmed_intercalate {ids : List Text} (h : ∀ id ∈ ids, Text.Trimmed id) :
    Text.Trimmed ([','].intercalate ids) := by
  induction ids with
  | nil => exact Text.trimmed_nil
  | cons id ids ih =>
    have hid := h id List.mem_cons_self
    have htail := ih fun d hd => h d (List.mem_cons_of_mem id hd)
    cases ids with
    | nil => simpa [List.intercalate] using hid
    | cons d ids =>
      have hcons : [','].intercalate (id :: d :: ids) =
          id ++ ',' :: [','].intercalate (d :: ids) := by
        simp [List.intercalate]
      rw [hcons]
      exact hid.join rfl htail

theorem readable_orderOf {table : Text} {ids : List Text} (h : (Preference.order table ids).Valid) :
    (orderOf table ids).Readable where
  name := h.1
  name_ne_nil := List.cons_ne_nil _ _
  comments := List.forall_mem_nil _
  entries := List.forall_mem_singleton.mpr
    ⟨show IsKey "order".toList by decide,
      trimmed_escapeIni (trimmed_intercalate fun id hid => (h.2.2 id hid).1),
      newline_notMem_escapeIni _,
      Or.inl (show "order".toList.head? ≠ some '[' by decide)⟩

theorem readable_sortOf {sort : OrdMap Text SortPreference}
    (h : ∀ (table : Text) (preference : SortPreference), sort[table]? = some preference →
      (Preference.sort table preference).Valid ∧ Plain table) : (sortOf sort).Readable where
  name := show IsName "sort".toList by decide
  name_ne_nil := List.cons_ne_nil _ _
  comments := List.forall_mem_singleton.mpr ⟨Or.inr rfl, by decide⟩
  entries := by
    intro q hq
    obtain ⟨⟨table, preference⟩, hp, rfl⟩ := List.mem_map.mp hq
    obtain ⟨⟨hkey, htrimmed, -⟩, hplain⟩ :=
      h table preference (Std.ExtTreeMap.mem_toList_iff_getElem?_eq_some.mp hp)
    dsimp only
    rw [escapeIni_of_plain hplain, ← escapeIni_sort]
    refine ⟨hkey, trimmed_escapeIni (htrimmed.join rfl (trimmed_boolText _)),
      newline_notMem_escapeIni _, ?_⟩
    rw [escapeIni_sort]
    refine not_header_of_last (c := 'e') ?_ (by decide)
    rw [List.getLast?_append, List.getLast?_cons]
    cases preference.ascending <;> rfl

theorem isKey_rule (index : ℕ) : IsKey ("rule.".toList ++ Text.digits index) := by
  have hrange : ∀ c ∈ "rule.".toList ++ Text.digits index,
      45 ≤ c.toNat ∧ c.toNat ≤ 126 ∧ c ≠ '=' ∧ c.toLower = c := by
    intro c hc
    rcases List.mem_append.mp hc with hc | hc
    · have hrule : "rule.".toList.all fun d =>
          45 ≤ d.toNat ∧ d.toNat ≤ 126 ∧ d ≠ '=' ∧ d.toLower = d := by decide
      exact of_decide_eq_true (List.all_eq_true.mp hrule c hc)
    · obtain ⟨hlo, hhi⟩ := toNat_of_isDigit (Or.inl (Text.isDigit_of_mem_digits hc))
      refine ⟨hlo, by omega, ?_, ?_⟩
      · rintro rfl
        exact absurd hhi (by decide)
      · exact (Text.toLower_cases c).resolve_right fun h => by omega
  have hhead : ("rule.".toList ++ Text.digits index).head? = some 'r' := by
    rw [List.head?_append_of_ne_nil _ (by decide)]
    rfl
  refine ⟨⟨Text.trimmed_of_forall fun c hc => ?_, ?_, fun hmem => ?_⟩, ?_, fun hmem => ?_, ?_⟩
  · obtain ⟨hlo, hhi, -⟩ := hrange c hc
    exact Text.isWhitespace_eq_false_of_range (by omega) hhi
  · exact List.map_congr_left (fun c hc => (hrange c hc).2.2.2) |>.trans (List.map_id' _)
  · exact absurd (hrange _ hmem).1 (by decide)
  · rintro hnil
    rw [hnil] at hhead
    cases hhead
  · exact (hrange _ hmem).2.2.1 rfl
  · rw [hhead]
    decide

theorem readable_rulesOf (hcrates : ∀ p, Text.Trimmed (crates.ruleToString p))
    (rules : List (Text × ProcessRule)) : (rulesOf crates rules).Readable where
  name := show IsName "process-rules".toList by decide
  name_ne_nil := List.cons_ne_nil _ _
  comments := List.forall_mem_singleton.mpr ⟨Or.inr rfl, by decide⟩
  entries := by
    intro q hq
    obtain ⟨⟨p, index⟩, -, rfl⟩ := List.mem_map.mp hq
    refine ⟨isKey_rule index, trimmed_escapeIni (hcrates p), newline_notMem_escapeIni _,
      Or.inl ?_⟩
    show ("rule.".toList ++ Text.digits index).head? ≠ some '['
    rw [List.head?_append_of_ne_nil _ (by decide)]
    decide

/-- **Every section of the saved text comes back.** -/
theorem readable_of_mem_sections (hcrates : ∀ p, Text.Trimmed (crates.ruleToString p))
    (h : s.Loaded crates) (hplain : s.PlainKeys) {x : IniSection} (hx : x ∈ s.sections crates) :
    x.Readable := by
  rcases List.mem_cons.mp hx with rfl | hx
  · exact readable_generalSection h.toLoadedGeneral
  simp only [List.mem_append] at hx
  rcases hx with (((hx | hx) | hx) | hx) | hx
  · obtain ⟨table, cols, htable, hne, rfl⟩ := mem_tableSections.mp hx
    exact readable_widthsOf (fun col w hw => ⟨(h.widths table cols htable).2 col w hw,
      plain_of_column hplain.widths (column_eq_some_iff.mpr ⟨cols, htable, hw⟩)⟩) hne
  · obtain ⟨table, cols, htable, hne, rfl⟩ := mem_tableSections.mp hx
    exact readable_visibleOf (fun col on hon => ⟨(h.visible table cols htable).2 col on hon,
      plain_of_column hplain.visible (column_eq_some_iff.mpr ⟨cols, htable, hon⟩)⟩) hne
  · obtain ⟨table, ids, htable, -, rfl⟩ := mem_tableSections.mp hx
    exact readable_orderOf (h.order table ids htable)
  · split_ifs at hx
    · cases hx
    · obtain rfl := List.mem_singleton.mp hx
      exact readable_sortOf fun table preference hsort => ⟨h.sort table preference hsort,
        hplain.sort (table, preference) (Std.ExtTreeMap.mem_toList_iff_getElem?_eq_some.mpr hsort)⟩
  · split_ifs at hx
    · cases hx
    · obtain rfl := List.mem_singleton.mp hx
      exact readable_rulesOf hcrates _

/-! ### What a section is about -/

/-- What the name of a section says about its lines. -/
inductive SectionKind where
  | other
  | sort
  | rules
  | visible (table : Text)
  | order (table : Text)
  | width (table : Text)
  deriving DecidableEq

/-- What a section is about, by its name. -/
def sectionKind (sec : Text) : SectionKind :=
  if sec = "sort".toList then .sort
  else if sec = "process-rules".toList then .rules
  else
    match Text.stripPrefix sec "columns.".toList with
    | none => .other
    | some rest =>
      match Text.rsplitOnce (· == '.') rest with
      | some (table, suffix) =>
        if suffix = "visible".toList then .visible table
        else if suffix = "order".toList then .order table
        else .width rest
      | none => .width rest

theorem ne_of_columns {rest sec : Text} (h : Text.stripPrefix sec "columns.".toList = none) :
    "columns.".toList ++ rest ≠ sec := by
  rintro rfl
  rw [Text.stripPrefix_eq_some_iff.mpr rfl] at h
  cases h

/-- The sections with the preferences of columns have names of their own. -/
theorem sectionKind_columns (rest : Text) :
    sectionKind ("columns.".toList ++ rest) =
      match Text.rsplitOnce (· == '.') rest with
      | some (table, suffix) =>
        if suffix = "visible".toList then .visible table
        else if suffix = "order".toList then .order table
        else .width rest
      | none => .width rest := by
  unfold sectionKind
  rw [if_neg (ne_of_columns (by decide)), if_neg (ne_of_columns (by decide)),
    Text.stripPrefix_eq_some_iff.mpr rfl]

theorem sectionKind_visibleSection (table : Text) :
    sectionKind (visibleSection table) = .visible table := by
  rw [visibleSection_eq]
  unfold widthSection
  rw [sectionKind_columns, Text.rsplitOnce_append_cons _ (by decide)]
  dsimp only
  rw [if_pos rfl]

theorem sectionKind_orderSection (table : Text) :
    sectionKind (orderSection table) = .order table := by
  rw [orderSection_eq]
  unfold widthSection
  rw [sectionKind_columns, Text.rsplitOnce_append_cons _ (by decide)]
  dsimp only
  rw [if_neg (by decide), if_pos rfl]

theorem IsWidthTable.sectionKind {table : Text} (h : IsWidthTable table) :
    sectionKind (widthSection table) = .width table := by
  unfold widthSection
  rw [sectionKind_columns]
  split
  · rename_i t suffix hsplit
    obtain ⟨hvisible, horder⟩ := h.suffix t suffix hsplit
    rw [if_neg hvisible, if_neg horder]
  · rfl

theorem sectionKind_general : sectionKind "general".toList = .other := by decide

theorem sectionKind_sort : sectionKind "sort".toList = .sort := by decide

theorem sectionKind_rules : sectionKind "process-rules".toList = .rules := by decide

/-! ### One value for each key -/

/-- What the settings say under a key in a section of some kind. -/
def ValueOf (crates : SettingsCrates) (s : Settings) : SectionKind → Text → Text → Prop
  | .other, key, value => ∃ k : String, k.toList = key ∧ (k, value) ∈ s.generalValues
  | .sort, table, value =>
    ∃ preference : SortPreference, s.tableSort[table]? = some preference ∧
      value = preference.column ++ ',' :: boolText preference.ascending
  | .rules, key, value =>
    ∃ (index : ℕ) (p : Text × ProcessRule), key = "rule.".toList ++ Text.digits index ∧
      s.savedRules[index]? = some p ∧ value = crates.ruleToString p
  | .visible table, col, value =>
    ∃ on : Bool, column s.colVisible table col = some on ∧
      value = if on then "1".toList else "0".toList
  | .order table, key, value =>
    ∃ ids : List Text, s.colOrder[table]? = some ids ∧ key = "order".toList ∧
      value = [','].intercalate ids
  | .width table, col, value =>
    ∃ w : F32, column s.colWidths table col = some w ∧ value = fmtWidth w

/-- The kind of its section tells what a saved entry says. -/
theorem SavedEntry.valueOf (hloaded : s.LoadedTables) {e : (Text × Text) × Text}
    (h : SavedEntry crates s e) : ValueOf crates s (sectionKind e.1.1) e.1.2 e.2 := by
  cases h with
  | @general key _ h =>
    dsimp only
    rw [sectionKind_general]
    exact ⟨key, rfl, h⟩
  | width h =>
    dsimp only
    rw [(hloaded.widths.of_column h).1.sectionKind]
    exact ⟨_, h, rfl⟩
  | visible h =>
    dsimp only
    rw [sectionKind_visibleSection]
    exact ⟨_, h, rfl⟩
  | order h =>
    dsimp only
    rw [sectionKind_orderSection]
    exact ⟨_, h, rfl, rfl⟩
  | sort h =>
    dsimp only
    rw [sectionKind_sort]
    exact ⟨_, h, rfl⟩
  | rule h =>
    dsimp only
    rw [sectionKind_rules]
    exact ⟨_, _, rfl, h, rfl⟩

theorem nodup_generalKeys : generalKeys.Nodup := by decide

/-- **One key has one value.** -/
theorem ValueOf.unique {kind : SectionKind} {key v w : Text} (hv : ValueOf crates s kind key v)
    (hw : ValueOf crates s kind key w) : v = w := by
  cases kind with
  | other =>
    obtain ⟨k, rfl, hk⟩ := hv
    obtain ⟨j, hj, hj'⟩ := hw
    obtain rfl := String.toList_inj.mp hj
    have hnodup : (s.generalValues.map Prod.fst).Nodup := by
      rw [map_fst_generalValues]
      exact nodup_generalKeys
    exact congrArg Prod.snd (List.inj_on_of_nodup_map hnodup hk hj' rfl)
  | sort =>
    obtain ⟨p, hp, rfl⟩ := hv
    obtain ⟨q, hq, rfl⟩ := hw
    rw [hp, Option.some.injEq] at hq
    rw [hq]
  | rules =>
    obtain ⟨i, p, hi, hp, rfl⟩ := hv
    obtain ⟨j, q, hj, hq, rfl⟩ := hw
    -- rules are numbered by their place
    rw [hi, List.append_cancel_left_eq] at hj
    rw [← Text.digits_injective hj, hp, Option.some.injEq] at hq
    rw [hq]
  | visible table =>
    obtain ⟨a, ha, rfl⟩ := hv
    obtain ⟨b, hb, rfl⟩ := hw
    rw [ha, Option.some.injEq] at hb
    rw [hb]
  | order table =>
    obtain ⟨a, ha, -, rfl⟩ := hv
    obtain ⟨b, hb, -, rfl⟩ := hw
    rw [ha, Option.some.injEq] at hb
    rw [hb]
  | width table =>
    obtain ⟨a, ha, rfl⟩ := hv
    obtain ⟨b, hb, rfl⟩ := hw
    rw [ha, Option.some.injEq] at hb
    rw [hb]

theorem isComment_front : ∀ l ∈ front, IsComment l ∧ '\n' ∉ l := by
  refine List.forall_mem_cons.mpr ⟨⟨Or.inr rfl, by decide⟩, ?_⟩
  exact List.forall_mem_singleton.mpr ⟨Or.inr rfl, by decide⟩

/-- **The saved text is read as its entries.** -/
theorem getElem?_parseIni_saveText (hcrates : ∀ p, Text.Trimmed (crates.ruleToString p))
    (h : s.Loaded crates) (hplain : s.PlainKeys) {k : Text × Text} {v : Text} :
    (parseIni (saveText crates s))[k]? = some v ↔ SavedEntry crates s (k, v) := by
  have hread := parseIni_of_sections isComment_front
    fun x hx => readable_of_mem_sections hcrates h hplain (x := x) hx
  have hmem : ∀ e, e ∈ (s.sections crates).flatMap IniSection.values ↔ SavedEntry crates s e := by
    intro e
    rw [List.mem_flatMap]
    exact mem_values_sections_iff h.toLoadedTables hplain
  -- no key stands in the text with two values, so the order of the sections does not matter
  have hfun : ∀ p ∈ (s.sections crates).flatMap IniSection.values,
      ∀ q ∈ (s.sections crates).flatMap IniSection.values, p.1 = q.1 → p.2 = q.2 := by
    intro p hp q hq hpq
    have hvp := ((hmem p).mp hp).valueOf h.toLoadedTables
    have hvq := ((hmem q).mp hq).valueOf h.toLoadedTables
    rw [← hpq] at hvq
    exact hvp.unique hvq
  rw [saveText_eq, hread, Ini.add, OrdMap.getElem?_foldl_insert_empty_iff hfun, hmem]

end Settings

end Taskman
