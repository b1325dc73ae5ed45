import Taskman.Core.Settings.Reread

/-!
# Saving and loading again

What is loaded from a text, saved, and loaded again has the same general fields and the same
preferences, with each width in tenths.

* `loadGeneral_of_values` : the fields of the general section come back;
* `mem_preferences_iff` : the preferences come back, with rounded widths;
* `fromIniText_saveText` : **a load of the saved text gives the settings with rounded widths, and
  from then on exactly what was saved**.
-/

namespace Taskman

/-- What the settings code relies on when rules are saved: `serde_json` reads back what it wrote,
and the JSON text of a pair has no space at its ends. -/
structure SettingsCrates.Lawful (crates : SettingsCrates) : Prop where
  ruleFromStr_ruleToString : ∀ p, crates.ruleFromStr (crates.ruleToString p) = some p
  trimmed_ruleToString : ∀ p, Text.Trimmed (crates.ruleToString p)

/-! ### Values of the general section -/

@[simp]
theorem parseBool_boolText (b : Bool) : parseBool (boolText b) = some b := by
  cases b <;> decide

theorem ThemeMode.fromCfg_asCfg (x : ThemeMode) : ThemeMode.fromCfg x.asCfg = some x := by
  cases x <;> decide

theorem UpdateSpeed.fromCfg_asCfg (x : UpdateSpeed) : UpdateSpeed.fromCfg x.asCfg = some x := by
  cases x <;> decide

theorem TextSmoothing.fromCfg_asCfg (x : TextSmoothing) :
    TextSmoothing.fromCfg x.asCfg = some x := by
  cases x <;> decide

theorem RenderMode.fromCfg_asCfg (x : RenderMode) : RenderMode.fromCfg x.asCfg = some x := by
  cases x <;> decide

theorem LangChoice.fromCfg_asCfg (x : LangChoice) : LangChoice.fromCfg x.asCfg = some x := by
  cases x <;> decide

namespace Settings

variable {crates : SettingsCrates} {s : Settings}

theorem parseWindowSize_writeWindowSize (sz : F32 × F32) :
    parseWindowSize (writeWindowSize sz) = some sz := by
  have hsplit : Text.splitOnce (fun c => c == 'x' || c == 'X') (writeWindowSize sz) =
      some (sz.1.display, sz.2.display) := by
    refine Text.splitOnce_eq_some_iff.mpr ⟨'x', rfl, rfl, fun c hc => ?_⟩
    have hrange := toNat_of_mem_display hc
    rw [Bool.or_eq_false_iff, beq_eq_false_iff_ne, beq_eq_false_iff_ne]
    constructor
    · rintro rfl
      exact absurd hrange.2 (by decide)
    · rintro rfl
      exact absurd hrange.2 (by decide)
  unfold parseWindowSize
  rw [hsplit]
  simp [Text.trim_eq_self (trimmed_display _)]

/-- **The general fields are read back from their values.** -/
theorem loadGeneral_of_values (h : s.LoadedGeneral crates) {kv : Ini}
    (hkv : ∀ p ∈ s.generalValues, general kv p.1 = some p.2) :
    loadGeneral crates kv = s.bare := by
  obtain ⟨hgraphLo, hgraphHi⟩ := h.graphSeconds
  have hseconds : Text.parseNat (2 ^ 32) (Text.digits s.graphSeconds) = some s.graphSeconds :=
    Text.parseNat_digits (by omega)
  have hclamp : min (max s.graphSeconds 10) 600 = s.graphSeconds := by omega
  have hzoomRange : (decide (1 / 2 ≤ s.uiZoom.val) && decide (s.uiZoom.val ≤ 3)) = true := by
    simpa using h.uiZoom
  have hcardRange :
      (decide (100 ≤ s.perfCardWidth.val) && decide (s.perfCardWidth.val ≤ 2000)) = true := by
    simpa using h.perfCardWidth
  unfold generalValues at hkv
  simp only [List.forall_mem_cons] at hkv
  obtain ⟨hsave, hlanguage, htheme, hspeed, htop, hgraph, hzoom, hremember, hsize, hpage, hsidebar,
    hcard, hcpu, hgpu, hkernel, hwifi, hkey, htree, htray, hwindows, helevated, hsmoothing,
    hrender, -⟩ := hkv
  unfold loadGeneral flag bare
  simp only [hsave, hlanguage, htheme, hspeed, htop, hgraph, hzoom, hremember, hsize, hpage,
    hsidebar, hcard, hcpu, hgpu, hkernel, hwifi, hkey, htree, htray, hwindows, helevated,
    hsmoothing, hrender, Option.bind_some, Option.map_some, Option.getD_some, Option.some_or,
    parseBool_boolText, ThemeMode.fromCfg_asCfg, UpdateSpeed.fromCfg_asCfg,
    TextSmoothing.fromCfg_asCfg, RenderMode.fromCfg_asCfg, LangChoice.fromCfg_asCfg, hseconds,
    hclamp, F32.parse_display, Option.filter_some, hzoomRange, hcardRange, if_true,
    parseWindowSize_writeWindowSize, h.windowSize, h.startPage, h.cpuGraphMode, h.perfSelectedKey,
    h.gpuGraphMode.2]

/-! ### Preferences -/

/-- What a key in a section of some kind says. -/
def readKind (crates : SettingsCrates) (kind : SectionKind) (key value : Text) :
    Option Preference :=
  match kind with
  | .other => none
  | .sort => readSort key value
  | .rules => if "rule.".toList <+: key then readRule crates value else none
  | .visible table => (parseBool value).map fun on => .visible table key on
  | .order table => readOrder table key value
  | .width table => readWidth table key value

theorem readPreference_columns (key value : Text) :
    readPreference crates (("columns".toList, key), value) = none := by
  unfold readPreference
  dsimp only
  rw [if_pos rfl]

theorem readPreference_sort (key value : Text) :
    readPreference crates (("sort".toList, key), value) = readSort key value := by
  unfold readPreference
  dsimp only
  rw [if_neg (by decide), if_pos rfl]

theorem readPreference_rules (key value : Text) :
    readPreference crates (("process-rules".toList, key), value) =
      if "rule.".toList <+: key then readRule crates value else none := by
  have hstrip : Text.stripPrefix "process-rules".toList "columns.".toList = none := by
    decide
  unfold readPreference
  dsimp only
  rw [if_neg (by decide), if_neg (by decide), hstrip, Option.bind_none]
  by_cases hkey : "rule.".toList <+: key
  · rw [if_pos ⟨rfl, hkey⟩, if_pos hkey]
  · rw [if_neg fun h => hkey h.2, if_neg hkey]

/-- An entry is read by the kind of its section. -/
theorem readPreference_eq (e : (Text × Text) × Text) :
    readPreference crates e = readKind crates (sectionKind e.1.1) e.1.2 e.2 := by
  obtain ⟨⟨sec, key⟩, value⟩ := e
  dsimp only
  by_cases hcolumns : sec = "columns".toList
  · have hkind : sectionKind "columns".toList = .other := by decide
    rw [hcolumns, readPreference_columns, hkind]
    rfl
  by_cases hsort : sec = "sort".toList
  · rw [hsort, readPreference_sort, sectionKind_sort]
    rfl
  by_cases hrules : sec = "process-rules".toList
  · rw [hrules, readPreference_rules, sectionKind_rules]
    rfl
  have hread : readPreference crates ((sec, key), value) =
      (Text.stripPrefix sec "columns.".toList).bind fun rest => readColumn rest key value := by
    unfold readPreference
    dsimp only
    rw [if_neg hcolumns, if_neg hsort, if_neg fun h => hrules h.1]
  rw [hread]
  unfold sectionKind
  rw [if_neg hsort, if_neg hrules]
  cases Text.stripPrefix sec "columns.".toList with
  | none => rfl
  | some rest =>
    rw [Option.bind_some]
    unfold readColumn readKind
    dsimp only
    cases Text.rsplitOnce (· == '.') rest with
    | none => rfl
    | some p =>
      dsimp only
      split_ifs <;> rfl

theorem readSort_saved {table : Text} {preference : SortPreference}
    (h : (Preference.sort table preference).Valid) :
    readSort table (preference.column ++ ',' :: boolText preference.ascending) =
      some (.sort table preference) := by
  obtain ⟨-, htrimmed, hne⟩ := h
  have hsplit : Text.rsplitOnce (· == ',')
      (preference.column ++ ',' :: boolText preference.ascending) =
        some (preference.column, boolText preference.ascending) := by
    refine Text.rsplitOnce_append_cons _ ?_
    cases preference.ascending <;> decide
  unfold readSort
  rw [hsplit]
  dsimp only
  rw [Text.trim_eq_self htrimmed, if_pos hne, Text.trim_eq_self (trimmed_boolText _),
    parseBool_boolText, Option.map_some]

theorem readOrder_saved {table : Text} {ids : List Text} (h : (Preference.order table ids).Valid) :
    readOrder table "order".toList ([','].intercalate ids) = some (.order table ids) := by
  obtain ⟨-, hne, hids⟩ := h
  have htrim : ids.map Text.trim = ids :=
    (List.map_congr_left fun id hid => Text.trim_eq_self (hids id hid).1).trans (List.map_id' ids)
  have hfilter : ids.filter (· ≠ []) = ids :=
    List.filter_eq_self.mpr fun id hid => decide_eq_true (hids id hid).2.1
  unfold readOrder
  dsimp only
  rw [if_pos rfl, List.splitOn_intercalate ',' (fun id hid => (hids id hid).2.2) hne, htrim,
    hfilter, if_pos hne]

theorem readWidth_saved {table col : Text} {w : F32} (h : (Preference.width table col w).Valid) :
    readWidth table col (fmtWidth w) = some (.width table col (roundWidth w)) := by
  obtain ⟨htable, -, hrange⟩ := h
  unfold readWidth
  rw [if_pos htable.ne_columns, parse_fmtWidth hrange, Option.filter_some,
    if_pos (widthInRange_roundWidth hrange), Option.map_some]

theorem parseBool_visible (on : Bool) :
    parseBool (if on then "1".toList else "0".toList) = some on := by
  cases on <;> decide

theorem mem_savedRules_iff {p : Text × ProcessRule} :
    p ∈ s.savedRules ↔ s.processRules[p.1]? = some p.2 ∧ p.2.isEmpty = false := by
  unfold savedRules
  rw [List.mem_filter, Std.ExtTreeMap.mem_toList_iff_getElem?_eq_some, decide_eq_true_iff]

/-- A saved entry is read as what the settings say, with the width in tenths. -/
theorem says_of_readKind (hcrates : crates.Lawful) (h : s.LoadedTables) {kind : SectionKind}
    {key value : Text} (hvalue : ValueOf crates s kind key value) {p : Preference}
    (hp : readKind crates kind key value = some p) : s.roundWidths.Says p := by
  cases kind with
  | other => cases hp
  | sort =>
    obtain ⟨preference, hsort, rfl⟩ := hvalue
    obtain rfl := Option.some.inj ((readSort_saved (h.sort key preference hsort)).symm.trans hp)
    exact hsort
  | rules =>
    obtain ⟨index, ⟨path, r⟩, -, hrule, rfl⟩ := hvalue
    unfold readKind readRule at hp
    dsimp only at hp
    rw [hcrates.ruleFromStr_ruleToString] at hp
    dsimp only at hp
    split_ifs at hp
    obtain rfl := Option.some.inj hp
    exact (mem_savedRules_iff.mp (List.mem_of_getElem? hrule)).1
  | visible table =>
    obtain ⟨on, hon, rfl⟩ := hvalue
    unfold readKind at hp
    dsimp only at hp
    rw [parseBool_visible, Option.map_some] at hp
    obtain rfl := Option.some.inj hp
    exact hon
  | order table =>
    obtain ⟨ids, hids, rfl, rfl⟩ := hvalue
    obtain rfl := Option.some.inj ((readOrder_saved (h.order table ids hids)).symm.trans hp)
    exact hids
  | width table =>
    obtain ⟨w, hw, rfl⟩ := hvalue
    obtain rfl := Option.some.inj ((readWidth_saved (h.widths.of_column hw)).symm.trans hp)
    exact column_roundWidths.trans (congrArg (Option.map roundWidth) hw)

/-- What the settings say, with widths in tenths, is read from some saved entry. -/
theorem exists_entry_of_says (hcrates : crates.Lawful) (h : s.LoadedTables) {p : Preference}
    (hp : s.roundWidths.Says p) :
    ∃ e, SavedEntry crates s e ∧ readPreference crates e = some p := by
  cases p with
  | sort table preference =>
    refine ⟨_, .sort hp, ?_⟩
    rw [readPreference_sort, readSort_saved (h.sort table preference hp)]
  | rule path r =>
    have hmem : (path, r) ∈ s.savedRules :=
      mem_savedRules_iff.mpr ⟨hp, (h.rules path r hp).2⟩
    obtain ⟨index, hindex⟩ := List.mem_iff_getElem?.mp hmem
    refine ⟨_, .rule hindex, ?_⟩
    rw [readPreference_rules, if_pos (List.prefix_append _ _), readRule,
      hcrates.ruleFromStr_ruleToString]
    exact if_pos (h.rules path r hp)
  | visible table col on =>
    refine ⟨_, .visible hp, ?_⟩
    rw [readPreference_eq]
    dsimp only
    rw [sectionKind_visibleSection]
    unfold readKind
    dsimp only
    rw [parseBool_visible, Option.map_some]
  | order table ids =>
    refine ⟨_, .order hp, ?_⟩
    rw [readPreference_eq]
    dsimp only
    rw [sectionKind_orderSection]
    exact readOrder_saved (h.order table ids hp)
  | width table col w =>
    -- a rounded width is read from the entry of the width it was rounded from
    obtain ⟨v, hv, rfl⟩ := Option.map_eq_some_iff.mp (column_roundWidths.symm.trans hp)
    refine ⟨_, .width hv, ?_⟩
    rw [readPreference_eq]
    dsimp only
    rw [(h.widths.of_column hv).1.sectionKind]
    exact readWidth_saved (h.widths.of_column hv)

/-- **The preferences come back, with widths in tenths.** -/
theorem mem_preferences_iff (hcrates : crates.Lawful) (h : s.Loaded crates) (hplain : s.PlainKeys)
    {p : Preference} :
    p ∈ (parseIni (saveText crates s)).toList.filterMap (readPreference crates) ↔
      s.roundWidths.Says p := by
  rw [List.mem_filterMap]
  constructor
  · rintro ⟨e, he, hp⟩
    have hsaved : SavedEntry crates s e :=
      (getElem?_parseIni_saveText hcrates.trimmed_ruleToString h hplain).mp
        (Std.ExtTreeMap.mem_toList_iff_getElem?_eq_some.mp he)
    rw [readPreference_eq] at hp
    exact says_of_readKind hcrates h.toLoadedTables (hsaved.valueOf h.toLoadedTables) hp
  · intro hp
    obtain ⟨e, hsaved, hread⟩ := exists_entry_of_says hcrates h.toLoadedTables hp
    exact ⟨e, Std.ExtTreeMap.mem_toList_iff_getElem?_eq_some.mpr
      ((getElem?_parseIni_saveText hcrates.trimmed_ruleToString h hplain).mpr hsaved), hread⟩

/-! ### Loading what was saved -/

/-- Nothing of the positional schema is ever saved. -/
theorem SavedEntry.ne_columns {e : (Text × Text) × Text} (h : SavedEntry crates s e) :
    e.1.1 ≠ "columns".toList := by
  have hstrip : Text.stripPrefix "columns".toList "columns.".toList = none := by decide
  cases h with
  | general => exact show "general".toList ≠ "columns".toList by decide
  | width => exact ne_of_columns hstrip
  | @visible table =>
    dsimp only
    rw [visibleSection_eq]
    exact ne_of_columns hstrip
  | @order table =>
    dsimp only
    rw [orderSection_eq]
    exact ne_of_columns hstrip
  | sort => exact show "sort".toList ≠ "columns".toList by decide
  | rule => exact show "process-rules".toList ≠ "columns".toList by decide

theorem foldl_migrate_of_ne {es : List ((Text × Text) × Text)}
    (h : ∀ e ∈ es, e.1.1 ≠ "columns".toList) (m : PerColumn F32) : es.foldl migrate m = m := by
  induction es generalizing m with
  | nil => rfl
  | cons e es ih =>
    have hlegacy : legacyWidths e = [] := if_neg (h e List.mem_cons_self)
    rw [List.foldl_cons, migrate, if_pos hlegacy,
      ih fun d hd => h d (List.mem_cons_of_mem e hd)]

theorem not_says_bare (p : Preference) : ¬ s.bare.Says p := by
  cases p with
  | sort => exact fun h => by simp [Says, bare] at h
  | rule => exact fun h => by simp [Says, bare] at h
  | visible => exact fun h => by simp [Says, bare, column_empty] at h
  | order => exact fun h => by simp [Says, bare] at h
  | width => exact fun h => by simp [Says, bare, column_empty] at h

/-- **What loaded settings are saved as is loaded as these settings, with widths in tenths.** -/
theorem fromIniText_saveText (hcrates : crates.Lawful) (h : s.Loaded crates)
    (hplain : s.PlainKeys) : fromIniText crates (saveText crates s) = s.roundWidths := by
  have hentry : ∀ e ∈ (parseIni (saveText crates s)).toList, SavedEntry crates s e := fun e he =>
    (getElem?_parseIni_saveText hcrates.trimmed_ruleToString h hplain).mp
      (Std.ExtTreeMap.mem_toList_iff_getElem?_eq_some.mp he)
  have hgeneral : loadGeneral crates (parseIni (saveText crates s)) = s.bare :=
    loadGeneral_of_values h.toLoadedGeneral fun p hp =>
      (getElem?_parseIni_saveText hcrates.trimmed_ruleToString h hplain).mpr (.general hp)
  -- the preferences that are read hold in one settings value, so no two fill the same slot
  have hfun : ∀ p ∈ (parseIni (saveText crates s)).toList.filterMap (readPreference crates),
      ∀ q ∈ (parseIni (saveText crates s)).toList.filterMap (readPreference crates),
        p.slot = q.slot → p = q := by
    intro p hp q hq
    rw [mem_preferences_iff hcrates h hplain] at hp hq
    exact hp.eq_of_slot_eq hq
  have hnone : ∀ p, ¬ (loadGeneral crates (parseIni (saveText crates s))).Says p := by
    rw [hgeneral]
    exact not_says_bare
  -- before the migration and the geometry the settings are there already
  have hloaded : ((parseIni (saveText crates s)).toList.filterMap (readPreference crates)).foldl
      addPreference (loadGeneral crates (parseIni (saveText crates s))) = s.roundWidths := by
    refine ext_of_says (Loaded.addPreferences valid_of_mem_preferences
      (loadedGeneral_loadGeneral _) (loadedTables_loadGeneral _)).2
      h.toLoadedTables.roundWidths ?_ fun p => ?_
    · rw [bare_foldl_addPreference, hgeneral]
      rfl
    · rw [says_foldl_addPreference hfun hnone, mem_preferences_iff hcrates h hplain]
  unfold fromIniText
  dsimp only
  rw [hloaded, foldl_migrate_of_ne fun e he => (hentry e he).ne_columns]
  split_ifs with hremember
  · have hsize : s.roundWidths.windowSize = ({} : Settings).windowSize := h.geometry hremember
    exact congrArg (fun size => { s.roundWidths with windowSize := size }) hsize.symm
  · rfl

theorem Loaded.roundWidths (h : s.Loaded crates) : s.roundWidths.Loaded crates :=
  { h.toLoadedGeneral, h.toLoadedTables.roundWidths with geometry := h.geometry }

theorem PlainKeys.roundWidths (hplain : s.PlainKeys) : s.roundWidths.PlainKeys := by
  refine { hplain with widths := fun p hp q hq => ?_ }
  unfold Settings.roundWidths at hp
  rw [Std.ExtTreeMap.mem_toList_iff_getElem?_eq_some, Std.ExtTreeMap.getElem?_map,
    Option.map_eq_some_iff] at hp
  obtain ⟨cols, hcols, hp⟩ := hp
  rw [← hp, Std.ExtTreeMap.mem_toList_iff_getElem?_eq_some, Std.ExtTreeMap.getElem?_map,
    Option.map_eq_some_iff] at hq
  obtain ⟨w, hw, -⟩ := hq
  exact hplain.widths (p.1, cols) (Std.ExtTreeMap.mem_toList_iff_getElem?_eq_some.mpr hcols)
    (q.1, w) (Std.ExtTreeMap.mem_toList_iff_getElem?_eq_some.mpr hw)

theorem roundWidths_roundWidths (h : s.LoadedTables) :
    s.roundWidths.roundWidths = s.roundWidths := by
  refine ext_of_says h.roundWidths.roundWidths h.roundWidths rfl fun p => ?_
  cases p with
  | sort => rfl
  | rule => rfl
  | visible => rfl
  | order => rfl
  | width table col w =>
    unfold Says
    dsimp only
    rw [column_roundWidths, column_roundWidths]
    cases hcol : column s.colWidths table col with
    | none => rfl
    | some v =>
      have hrange := (h.widths.of_column hcol).2.2
      rw [Option.map_some, Option.map_some, roundWidth_roundWidth hrange]

/-! ### JSON of rules -/

/-- JSON of a priority, which is the name of its variant. -/
def priorityText : Option PriorityClass → Text
  | none => "null".toList
  | some .realtime => "\"Realtime\"".toList
  | some .high => "\"High\"".toList
  | some .aboveNormal => "\"AboveNormal\"".toList
  | some .normal => "\"Normal\"".toList
  | some .belowNormal => "\"BelowNormal\"".toList
  | some .low => "\"Low\"".toList
  | some .unknown => "\"Unknown\"".toList

/-- A priority of a rule as it is read. -/
def priorityOf (t : Text) : Option (Option PriorityClass) :=
  [none, some .realtime, some .high, some .aboveNormal, some .normal, some .belowNormal, some .low,
    some .unknown].find? fun p => priorityText p = t

/-- A mask of a rule as it is written. -/
def maskText : Option UInt64 → Text
  | none => "null".toList
  | some m => Text.digits m.toNat

/-- A mask of a rule as it is read. -/
def maskOf (t : Text) : Option (Option UInt64) :=
  if t = "null".toList then some none
  else (Text.parseNat (2 ^ 64) t).map fun n => some (UInt64.ofNat n)

/-- `serde_json`, as it is on the paths in which JSON escapes nothing. -/
def jsonCrates : SettingsCrates where
  ruleToString p :=
    "[\"".toList ++ (p.1 ++ "\",\x7b\"priority\"".toList ++ ':' :: (priorityText p.2.priority) ++
      ",\"affinity_mask\"".toList ++ ':' :: (maskText p.2.affinityMask) ++ "\x7d]".toList)
  ruleFromStr t := do
    let t ← Text.stripPrefix t "[\"".toList
    let t ← Text.stripSuffix t "\x7d]".toList
    let (t, mask) ← Text.rsplitOnce (· == ':') t
    let t ← Text.stripSuffix t ",\"affinity_mask\"".toList
    let (t, priority) ← Text.rsplitOnce (· == ':') t
    let path ← Text.stripSuffix t "\",\x7b\"priority\"".toList
    let priority ← priorityOf priority
    let affinityMask ← maskOf mask
    some (path, { priority, affinityMask })
  isAlphanumeric := Char.isAlphanum

theorem priorityOf_priorityText (p : Option PriorityClass) :
    priorityOf (priorityText p) = some p := by
  rcases p with _ | p
  · decide
  · cases p <;> decide

theorem maskOf_maskText (m : Option UInt64) : maskOf (maskText m) = some m := by
  cases m with
  | none => decide
  | some m =>
    have hne : Text.digits m.toNat ≠ "null".toList := by
      intro h
      have hmem : 'n' ∈ Text.digits m.toNat := by
        rw [h]
        decide
      exact absurd (Text.isDigit_of_mem_digits hmem) (by decide)
    unfold maskOf maskText
    dsimp only
    rw [if_neg hne, Text.parseNat_digits m.toNat_lt, Option.map_some, UInt64.ofNat_toNat]

theorem colon_notMem_maskText (m : Option UInt64) : ':' ∉ maskText m := by
  cases m with
  | none => decide
  | some m =>
    intro h
    exact absurd (Text.isDigit_of_mem_digits h) (by decide)

theorem colon_notMem_priorityText (p : Option PriorityClass) : ':' ∉ priorityText p := by
  rcases p with _ | p
  · decide
  · cases p <;> decide

theorem lawful_jsonCrates : jsonCrates.Lawful where
  ruleFromStr_ruleToString p := by
    unfold jsonCrates
    dsimp only
    rw [Text.stripPrefix_append, Option.bind_eq_bind, Option.bind_some, Text.stripSuffix_append,
      Option.bind_eq_bind, Option.bind_some,
      Text.rsplitOnce_append_cons _ (colon_notMem_maskText _),
      Option.bind_eq_bind, Option.bind_some, Text.stripSuffix_append, Option.bind_eq_bind,
      Option.bind_some, Text.rsplitOnce_append_cons _ (colon_notMem_priorityText _)]
    simp only [Option.bind_some, Text.stripSuffix_append, priorityOf_priorityText, maskOf_maskText]
  trimmed_ruleToString p := by
    constructor
    · rintro c ⟨⟩
      decide
    · intro c hc
      unfold jsonCrates at hc
      dsimp only at hc
      rw [← List.append_assoc, List.getLast?_append_of_ne_nil _ (by decide)] at hc
      obtain rfl : ']' = c := Option.some.inj hc
      decide

/-- A width in hundredths, and a sort choice. -/
def sampleText : Text := "[columns.cpu]\npid=110.25\n[sort]\ncpu=pid,on".toList

theorem plainKeys_sampleText : (fromIniText jsonCrates sampleText).PlainKeys :=
  ⟨by decide +kernel, by decide +kernel, by decide +kernel⟩

/-- **Every load of what a load saved gives the same settings, with widths in tenths, as long as no
key of the saved text needs an escape.** -/
theorem reload_stable (hcrates : crates.Lawful) (text : Text)
    (hplain : (fromIniText crates text).PlainKeys) :
    fromIniText crates (saveText crates (fromIniText crates text)) =
        (fromIniText crates text).roundWidths ∧
      fromIniText crates (saveText crates (fromIniText crates text).roundWidths) =
        (fromIniText crates text).roundWidths := by
  have h : (fromIniText crates text).Loaded crates := loaded_fromIniText text
  refine ⟨fromIniText_saveText hcrates h hplain, ?_⟩
  rw [fromIniText_saveText hcrates h.roundWidths hplain.roundWidths,
    roundWidths_roundWidths h.toLoadedTables]

theorem reload_stable_sample :
    fromIniText jsonCrates (saveText jsonCrates (fromIniText jsonCrates sampleText)) =
        (fromIniText jsonCrates sampleText).roundWidths ∧
      fromIniText jsonCrates (saveText jsonCrates (fromIniText jsonCrates sampleText).roundWidths) =
        (fromIniText jsonCrates sampleText).roundWidths :=
  reload_stable lawful_jsonCrates sampleText plainKeys_sampleText

/-- The width 110.25 is saved as 110.2. -/
theorem reload_ne :
    fromIniText jsonCrates (saveText jsonCrates (fromIniText jsonCrates sampleText)) ≠
      fromIniText jsonCrates sampleText := by
  have hwidth : column (fromIniText jsonCrates sampleText).colWidths "cpu".toList "pid".toList ≠
      (column (fromIniText jsonCrates sampleText).colWidths "cpu".toList "pid".toList).map
        roundWidth := by
    decide +kernel
  rw [fromIniText_saveText lawful_jsonCrates (loaded_fromIniText sampleText) plainKeys_sampleText]
  intro h
  have hcolumn : column (fromIniText jsonCrates sampleText).roundWidths.colWidths "cpu".toList
      "pid".toList =
      (column (fromIniText jsonCrates sampleText).colWidths "cpu".toList "pid".toList).map
        roundWidth := column_roundWidths
  rw [h] at hcolumn
  exact hwidth hcolumn

end Settings

end Taskman
