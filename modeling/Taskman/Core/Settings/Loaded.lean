import Taskman.Core.Settings

/-!
# Loaded settings

What holds of every settings value that was read from a text, whatever the text says.

* `Preference.Valid` : what an entry of a file can say;
* `Settings.LoadedGeneral`, `Settings.LoadedTables` : the ranges and forms of the fields;
* `Settings.loaded_fromIniText` : **every loaded value has them**.
-/

namespace Taskman

namespace Settings

variable {crates : SettingsCrates}

/-! ### Entries -/

/-- The section with the widths of a table. -/
def widthSection (table : Text) : Text := "columns.".toList ++ table

/-- The section with the visible columns of a table. -/
def visibleSection (table : Text) : Text := "columns.".toList ++ table ++ ".visible".toList

/-- The section with the column order of a table. -/
def orderSection (table : Text) : Text := "columns.".toList ++ table ++ ".order".toList

theorem visibleSection_eq (table : Text) :
    visibleSection table = widthSection (table ++ '.' :: "visible".toList) := by
  unfold visibleSection widthSection
  simp only [List.append_assoc, String.reduceToList]

theorem orderSection_eq (table : Text) :
    orderSection table = widthSection (table ++ '.' :: "order".toList) := by
  unfold orderSection widthSection
  simp only [List.append_assoc, String.reduceToList]

/-- The section of the widths of a table is not taken for another one. -/
structure IsWidthTable (table : Text) : Prop where
  name : IsName (widthSection table)
  ne_columns : table ≠ "columns".toList
  suffix : ∀ t suffix, Text.rsplitOnce (· == '.') table = some (t, suffix) →
    suffix ≠ "visible".toList ∧ suffix ≠ "order".toList

/-- What an entry of a file can say. -/
def Preference.Valid : Preference → Prop
  | .sort table preference =>
    IsKey table ∧ Text.Trimmed preference.column ∧ preference.column ≠ []
  | .rule path r => Text.trim path ≠ [] ∧ r.isEmpty = false
  | .visible table col _ => IsName (visibleSection table) ∧ IsKey col
  | .order table ids =>
    IsName (orderSection table) ∧ ids ≠ [] ∧
      ∀ id ∈ ids, Text.Trimmed id ∧ id ≠ [] ∧ ',' ∉ id
  | .width table col w => IsWidthTable table ∧ IsKey col ∧ widthInRange w

theorem valid_readSort {table value : Text} (htable : IsKey table) {p : Preference}
    (h : readSort table value = some p) : p.Valid := by
  unfold readSort at h
  split at h
  · cases h
  · split_ifs at h with hcolumn
    obtain ⟨ascending, -, rfl⟩ := Option.map_eq_some_iff.mp h
    exact ⟨htable, Text.trimmed_trim _, hcolumn⟩

theorem valid_readRule {value : Text} {p : Preference} (h : readRule crates value = some p) :
    p.Valid := by
  unfold readRule at h
  split at h
  · split_ifs at h with hrule
    cases h
    exact hrule
  · cases h

theorem valid_readOrder {table key value : Text} (hname : IsName (orderSection table))
    {p : Preference} (h : readOrder table key value = some p) : p.Valid := by
  unfold readOrder at h
  obtain ⟨-, h⟩ := Option.ite_none_right_eq_some.mp h
  dsimp only at h
  split_ifs at h with hids
  cases h
  refine ⟨hname, hids, fun id hid => ?_⟩
  obtain ⟨hmem, hne⟩ := List.mem_filter.mp hid
  obtain ⟨part, hpart, rfl⟩ := List.mem_map.mp hmem
  have hcomma : ',' ∉ part := Text.notMem_of_mem_splitOn hpart
  exact ⟨Text.trimmed_trim _, by simpa using hne, fun h => hcomma (Text.mem_of_mem_trim h)⟩

theorem valid_readWidth {table key value : Text} (hname : IsName (widthSection table))
    (hkey : IsKey key) (hsuffix : ∀ t suffix, Text.rsplitOnce (· == '.') table = some (t, suffix) →
      suffix ≠ "visible".toList ∧ suffix ≠ "order".toList) {p : Preference}
    (h : readWidth table key value = some p) : p.Valid := by
  unfold readWidth at h
  split_ifs at h with hcolumns
  obtain ⟨w, hw, rfl⟩ := Option.map_eq_some_iff.mp h
  exact ⟨⟨hname, hcolumns, hsuffix⟩, hkey, (Option.filter_eq_some_iff.mp hw).2⟩

theorem valid_readColumn {rest key value : Text} (hname : IsName (widthSection rest))
    (hkey : IsKey key) {p : Preference} (h : readColumn rest key value = some p) : p.Valid := by
  unfold readColumn at h
  split at h
  · rename_i table suffix hsplit
    obtain ⟨c, hc, hrest, -⟩ := Text.rsplitOnce_eq_some_iff.mp hsplit
    -- the section is that of the table's visibility, of its order, or of the widths of a table
    -- whose name has a dot
    obtain rfl : c = '.' := by simpa using hc
    split_ifs at h with hvisible horder
    · obtain ⟨on, -, rfl⟩ := Option.map_eq_some_iff.mp h
      rw [hrest, hvisible, ← visibleSection_eq] at hname
      exact ⟨hname, hkey⟩
    · rw [hrest, horder, ← orderSection_eq] at hname
      exact valid_readOrder hname h
    · refine valid_readWidth hname hkey ?_ h
      intro t suffix' h'
      rw [hsplit] at h'
      cases h'
      exact ⟨hvisible, horder⟩
  · rename_i hsplit
    refine valid_readWidth hname hkey ?_ h
    intro t suffix h'
    rw [hsplit] at h'
    cases h'

/-- **What is read is valid.** -/
theorem valid_readPreference {e : (Text × Text) × Text} (hname : IsName e.1.1) (hkey : IsKey e.1.2)
    {p : Preference} (h : readPreference crates e = some p) : p.Valid := by
  rcases e with ⟨⟨sec, key⟩, value⟩
  unfold readPreference at h
  dsimp only at h hname hkey
  split_ifs at h
  · exact valid_readSort hkey h
  · exact valid_readRule h
  · obtain ⟨rest, hrest, h⟩ := Option.bind_eq_some_iff.mp h
    rw [Text.stripPrefix_eq_some_iff.mp hrest] at hname
    exact valid_readColumn hname hkey h

/-! ### Tables -/

/-- Every column of every table satisfies `P`, and no table is empty. -/
def All {α : Type} (m : PerColumn α) (P : Text → Text → α → Prop) : Prop :=
  ∀ (table : Text) (cols : OrdMap Text α), m[table]? = some cols →
    cols.isEmpty = false ∧ ∀ (col : Text) (v : α), cols[col]? = some v → P table col v

theorem all_empty {α : Type} (P : Text → Text → α → Prop) : All (∅ : PerColumn α) P := by
  intro table cols h
  rw [Std.ExtTreeMap.getElem?_empty] at h
  cases h

theorem All.insertColumn {α : Type} {m : PerColumn α} {P : Text → Text → α → Prop} (h : All m P)
    {table col : Text} {v : α} (hv : P table col v) : All (insertColumn m table col v) P := by
  intro t cols hcols
  rw [Settings.insertColumn, OrdMap.getElem?_alter] at hcols
  split_ifs at hcols with ht
  · subst ht
    obtain rfl := Option.some.inj hcols
    refine ⟨OrdMap.isEmpty_eq_false_iff.mpr ⟨col, v, ?_⟩, fun c w hw => ?_⟩
    · rw [OrdMap.getElem?_insert, if_pos rfl]
    · rw [OrdMap.getElem?_insert] at hw
      split_ifs at hw with hc
      · subst hc
        obtain rfl := Option.some.inj hw
        exact hv
      · cases hm : m[table]? with
        | none =>
          rw [hm] at hw
          simp at hw
        | some old =>
          rw [hm] at hw
          exact (h table old hm).2 c w hw
  · exact h t cols hcols

theorem isWidthTable_of_noDot {table : Text} (hname : IsName (widthSection table))
    (hne : table ≠ "columns".toList) (hdot : '.' ∉ table) : IsWidthTable table := by
  refine ⟨hname, hne, fun t suffix h => ?_⟩
  obtain ⟨c, hc, rfl, -⟩ := Text.rsplitOnce_eq_some_iff.mp h
  obtain rfl : c = '.' := by simpa using hc
  exact absurd (List.mem_append_right t List.mem_cons_self) hdot

theorem legacyColumnOrder_names : ∀ p ∈ legacyColumnOrder,
    (IsName (widthSection p.1.toList) ∧ p.1.toList ≠ "columns".toList ∧ '.' ∉ p.1.toList) ∧
      ∀ c ∈ p.2, IsKey c.toList := by
  decide

theorem valid_legacyWidths {e : (Text × Text) × Text} :
    ∀ p ∈ legacyWidths e, (Preference.width e.1.2 p.1 p.2).Valid := by
  intro p hp
  unfold legacyWidths at hp
  split_ifs at hp
  · split at hp
    · unfold migratePositionalWidths at hp
      split at hp
      · rename_i table order hfind
        -- the positional schema names its tables and columns itself
        obtain ⟨⟨hname, hne, hdot⟩, hcols⟩ :=
          legacyColumnOrder_names _ (List.mem_of_find?_eq_some hfind)
        have htable : table.toList = e.1.2 := by simpa using List.find?_some hfind
        obtain ⟨hmem, hw⟩ := List.mem_filter.mp hp
        obtain ⟨col, hcol, hcol'⟩ := List.mem_map.mp (List.of_mem_zip hmem).1
        rw [← hcol', ← htable]
        exact ⟨isWidthTable_of_noDot hname hne hdot, hcols col hcol, hw⟩
      · cases hp
    · cases hp
  · cases hp

/-- Columns that are added where there are none. -/
theorem getElem?_foldl_insertIfNew {α : Type} {P : Text → α → Prop} {l : List (Text × α)}
    (hl : ∀ p ∈ l, P p.1 p.2) {cols : OrdMap Text α}
    (hcols : ∀ (c : Text) (v : α), cols[c]? = some v → P c v) :
    ∀ (c : Text) (v : α), (l.foldl (fun cols p => cols.insertIfNew p.1 p.2) cols)[c]? = some v →
      P c v := by
  induction l generalizing cols with
  | nil => exact hcols
  | cons p l ih =>
    refine ih (fun q hq => hl q (List.mem_cons_of_mem p hq)) fun c v h => ?_
    rw [OrdMap.getElem?_insertIfNew] at h
    split_ifs at h with hc
    · subst hc
      cases hold : cols[p.1]? with
      | none =>
        rw [hold] at h
        obtain rfl := Option.some.inj h
        exact hl p List.mem_cons_self
      | some old =>
        rw [hold] at h
        obtain rfl := Option.some.inj h
        exact hcols _ _ hold
    · exact hcols c v h

theorem isEmpty_foldl_insertIfNew {α : Type} {l : List (Text × α)} {cols : OrdMap Text α}
    (h : cols.isEmpty = false ∨ l ≠ []) :
    (l.foldl (fun cols p => cols.insertIfNew p.1 p.2) cols).isEmpty = false := by
  induction l generalizing cols with
  | nil => exact h.resolve_right fun h => h rfl
  | cons p l ih =>
    refine ih (Or.inl (OrdMap.isEmpty_eq_false_iff.mpr ⟨p.1, cols[p.1]?.getD p.2, ?_⟩))
    rw [OrdMap.getElem?_insertIfNew, if_pos rfl]

theorem All.migrate {m : PerColumn F32} (h : All m fun t c w => (Preference.width t c w).Valid)
    (e : (Text × Text) × Text) :
    All (migrate m e) fun t c w => (Preference.width t c w).Valid := by
  unfold Settings.migrate
  split_ifs with hnil
  · exact h
  · intro t cols hcols
    rw [OrdMap.getElem?_alter] at hcols
    split_ifs at hcols with ht
    · subst ht
      obtain rfl := Option.some.inj hcols
      refine ⟨isEmpty_foldl_insertIfNew (Or.inr hnil),
        getElem?_foldl_insertIfNew valid_legacyWidths fun c v hv => ?_⟩
      cases hm : m[e.1.2]? with
      | none =>
        rw [hm] at hv
        simp at hv
      | some old =>
        rw [hm] at hv
        exact (h e.1.2 old hm).2 c v hv
    · exact h t cols hcols

/-- What holds of the tables of loaded settings. -/
structure LoadedTables (s : Settings) : Prop where
  widths : All s.colWidths fun t c w => (Preference.width t c w).Valid
  visible : All s.colVisible fun t c on => (Preference.visible t c on).Valid
  order : ∀ (t : Text) (ids : List Text), s.colOrder[t]? = some ids →
    (Preference.order t ids).Valid
  sort : ∀ (t : Text) (p : SortPreference), s.tableSort[t]? = some p → (Preference.sort t p).Valid
  rules : ∀ (path : Text) (r : ProcessRule), s.processRules[path]? = some r →
    (Preference.rule path r).Valid

theorem LoadedTables.addPreference {s : Settings} (h : s.LoadedTables) {p : Preference}
    (hp : p.Valid) : (s.addPreference p).LoadedTables := by
  cases p with
  | sort table preference => exact { h with sort := OrdMap.forall_getElem?_insert h.sort hp }
  | rule path r => exact { h with rules := OrdMap.forall_getElem?_insert h.rules hp }
  | visible table col on => exact { h with visible := h.visible.insertColumn hp }
  | order table ids => exact { h with order := OrdMap.forall_getElem?_insert h.order hp }
  | width table col w => exact { h with widths := h.widths.insertColumn hp }

theorem All.migrates (es : List ((Text × Text) × Text)) {m : PerColumn F32}
    (h : All m fun t c w => (Preference.width t c w).Valid) :
    All (es.foldl Settings.migrate m) fun t c w => (Preference.width t c w).Valid := by
  induction es generalizing m with
  | nil => exact h
  | cons e es ih => exact ih (h.migrate e)

/-! ### The general section -/

/-- What holds of the other fields of loaded settings. -/
structure LoadedGeneral (crates : SettingsCrates) (s : Settings) : Prop where
  graphSeconds : 10 ≤ s.graphSeconds ∧ s.graphSeconds ≤ 600
  uiZoom : 1 / 2 ≤ s.uiZoom.val ∧ s.uiZoom.val ≤ 3
  windowSize : clampWindow s.windowSize = s.windowSize
  startPage : startPageOf s.defaultStartPage = some s.defaultStartPage
  perfCardWidth : 100 ≤ s.perfCardWidth.val ∧ s.perfCardWidth.val ≤ 2000
  cpuGraphMode : cpuGraphModeOf s.cpuGraphMode = some s.cpuGraphMode
  /-- The default engine name need not be one that is accepted. -/
  gpuGraphMode : Text.Trimmed s.gpuGraphMode ∧
    (gpuGraphModeOf crates s.gpuGraphMode).getD "overall".toList = s.gpuGraphMode
  perfSelectedKey : perfSelectedKeyOf s.perfSelectedKey = some s.perfSelectedKey

theorem holds_getD {α : Type*} {P : α → Prop} {o : Option α} {d : α} (hd : P d)
    (ho : ∀ v, o = some v → P v) : P (o.getD d) := by
  cases o with
  | none => exact hd
  | some v => exact ho v rfl

theorem clampWindow_clampWindow (sz : F32 × F32) :
    clampWindow (clampWindow sz) = clampWindow sz := by
  unfold clampWindow
  rw [F32.clamp_clamp _ (by norm_num [F32.ofNat]), F32.clamp_clamp _ (by norm_num [F32.ofNat])]

theorem clampWindow_default :
    clampWindow ({} : Settings).windowSize = ({} : Settings).windowSize := by
  norm_num [clampWindow, F32.clamp, F32.ofNat]

theorem startPageOf_of_eq_some {v page : Text} (h : startPageOf v = some page) :
    startPageOf page = some page := by
  unfold startPageOf at h
  dsimp only at h
  split_ifs at h with hpage
  obtain rfl := Option.some.inj h
  have htrim : Text.trim (Text.toAsciiLowercase (Text.trim v)) =
      Text.toAsciiLowercase (Text.trim v) :=
    Text.trim_eq_self (Text.trimmed_trim v).toAsciiLowercase
  unfold startPageOf
  simp only [htrim, Text.toAsciiLowercase_toAsciiLowercase]
  exact if_pos hpage

theorem cpuGraphModeOf_of_eq_some {v mode : Text} (h : cpuGraphModeOf v = some mode) :
    cpuGraphModeOf mode = some mode := by
  unfold cpuGraphModeOf at h
  dsimp only at h
  split_ifs at h with hmode
  obtain rfl := Option.some.inj h
  have htrim : Text.trim (Text.toAsciiLowercase (Text.trim v)) =
      Text.toAsciiLowercase (Text.trim v) :=
    Text.trim_eq_self (Text.trimmed_trim v).toAsciiLowercase
  unfold cpuGraphModeOf
  simp only [htrim, Text.toAsciiLowercase_toAsciiLowercase]
  exact if_pos hmode

theorem gpuGraphModeOf_of_eq_some {v mode : Text} (h : gpuGraphModeOf crates v = some mode) :
    Text.Trimmed mode ∧ gpuGraphModeOf crates mode = some mode := by
  unfold gpuGraphModeOf at h
  dsimp only at h
  split_ifs at h with hmode
  obtain rfl := Option.some.inj h
  refine ⟨Text.trimmed_trim v, ?_⟩
  unfold gpuGraphModeOf
  simp only [Text.trim_eq_self (Text.trimmed_trim v)]
  exact if_pos hmode

theorem eq_overall_of_gpuGraphModeOf {mode : Text}
    (h : gpuGraphModeOf crates "overall".toList = some mode) : mode = "overall".toList := by
  unfold gpuGraphModeOf at h
  dsimp only at h
  split_ifs at h
  rw [← Option.some.inj h]
  decide

theorem perfSelectedKeyOf_of_eq_some {v key : Text} (h : perfSelectedKeyOf v = some key) :
    perfSelectedKeyOf key = some key := by
  unfold perfSelectedKeyOf at h
  dsimp only at h
  split_ifs at h with hkey
  obtain rfl := Option.some.inj h
  unfold perfSelectedKeyOf
  simp only [Text.trim_eq_self (Text.trimmed_trim v)]
  exact if_pos hkey

theorem loadedGeneral_loadGeneral (kv : Ini) : (loadGeneral crates kv).LoadedGeneral crates where
  graphSeconds := by
    refine holds_getD (P := fun v : ℕ => 10 ≤ v ∧ v ≤ 600) (by norm_num) fun v hv => ?_
    obtain ⟨n, -, rfl⟩ := Option.map_eq_some_iff.mp hv
    omega
  uiZoom := by
    refine holds_getD (P := fun v : F32 => 1 / 2 ≤ v.val ∧ v.val ≤ 3) (by norm_num [F32.ofNat])
      fun v hv => ?_
    have hrange := (Option.filter_eq_some_iff.mp hv).2
    simpa using hrange
  windowSize := by
    refine holds_getD (P := fun v : F32 × F32 => clampWindow v = v) clampWindow_default
      fun v hv => ?_
    obtain ⟨sz, -, rfl⟩ := Option.map_eq_some_iff.mp hv
    exact clampWindow_clampWindow sz
  startPage := by
    refine holds_getD (P := fun v : Text => startPageOf v = some v) (by decide)
      fun v hv => ?_
    obtain ⟨raw, -, hv⟩ := Option.bind_eq_some_iff.mp hv
    exact startPageOf_of_eq_some hv
  perfCardWidth := by
    refine holds_getD (P := fun v : F32 => 100 ≤ v.val ∧ v.val ≤ 2000) (by norm_num [F32.ofNat])
      fun v hv => ?_
    have hrange := (Option.filter_eq_some_iff.mp hv).2
    simpa using hrange
  cpuGraphMode := by
    refine holds_getD (P := fun v : Text => cpuGraphModeOf v = some v) (by decide)
      fun v hv => ?_
    obtain ⟨raw, -, hv⟩ := Option.bind_eq_some_iff.mp hv
    exact cpuGraphModeOf_of_eq_some hv
  gpuGraphMode := by
    -- the default need not be accepted as an engine name, but it is read as the default
    refine holds_getD (P := fun v : Text => Text.Trimmed v ∧
      (gpuGraphModeOf crates v).getD "overall".toList = v) ⟨by decide, ?_⟩ fun v hv => ?_
    · exact holds_getD (P := fun v : Text => v = "overall".toList) rfl fun v hv =>
        eq_overall_of_gpuGraphModeOf hv
    · obtain ⟨raw, -, hv⟩ := Option.bind_eq_some_iff.mp hv
      obtain ⟨htrim, hmode⟩ := gpuGraphModeOf_of_eq_some hv
      exact ⟨htrim, by rw [hmode, Option.getD_some]⟩
  perfSelectedKey := by
    refine holds_getD (P := fun v : Text => perfSelectedKeyOf v = some v) (by decide)
      fun v hv => ?_
    obtain ⟨raw, -, hv⟩ := Option.bind_eq_some_iff.mp hv
    exact perfSelectedKeyOf_of_eq_some hv

theorem LoadedGeneral.addPreference {s : Settings} (h : s.LoadedGeneral crates) (p : Preference) :
    (s.addPreference p).LoadedGeneral crates := by
  cases p with
  | sort => exact { h with }
  | rule => exact { h with }
  | visible => exact { h with }
  | order => exact { h with }
  | width => exact { h with }

/-! ### Every loaded value -/

/-- What holds of settings that were read from a text. -/
structure Loaded (crates : SettingsCrates) (s : Settings) : Prop extends
    s.LoadedGeneral crates, s.LoadedTables where
  geometry : s.rememberWindow = false → s.windowSize = ({} : Settings).windowSize

theorem Loaded.addPreferences {ps : List Preference} (hps : ∀ p ∈ ps, p.Valid) {s : Settings}
    (hs : s.LoadedGeneral crates) (ht : s.LoadedTables) :
    (ps.foldl Settings.addPreference s).LoadedGeneral crates ∧
      (ps.foldl Settings.addPreference s).LoadedTables := by
  induction ps generalizing s with
  | nil => exact ⟨hs, ht⟩
  | cons p ps ih =>
    exact ih (fun q hq => hps q (List.mem_cons_of_mem p hq)) (hs.addPreference p)
      (ht.addPreference (hps p List.mem_cons_self))

theorem valid_of_mem_preferences {text : Text} :
    ∀ p ∈ (parseIni text).toList.filterMap (readPreference crates), p.Valid := by
  intro p hp
  obtain ⟨e, he, hread⟩ := List.mem_filterMap.mp hp
  have hkey := isKey_of_parseIni (Std.ExtTreeMap.mem_toList_iff_getElem?_eq_some.mp he)
  exact valid_readPreference hkey.1 hkey.2 hread

theorem loadedTables_loadGeneral (kv : Ini) : (loadGeneral crates kv).LoadedTables :=
  ⟨all_empty _, all_empty _, by simp [loadGeneral], by simp [loadGeneral], by simp [loadGeneral]⟩

/-- **Whatever a text says, the settings read from it are in range and in form.** -/
theorem loaded_fromIniText (text : Text) : (fromIniText crates text).Loaded crates := by
  obtain ⟨hgeneral, htables⟩ := Loaded.addPreferences valid_of_mem_preferences
    (loadedGeneral_loadGeneral (parseIni text)) (loadedTables_loadGeneral (parseIni text))
  have hwidths := htables.widths.migrates (parseIni text).toList
  unfold fromIniText
  dsimp only
  split_ifs with hremember
  · exact { hgeneral, htables with
      windowSize := clampWindow_default
      widths := hwidths
      geometry := fun _ => rfl }
  · exact { hgeneral, htables with
      widths := hwidths
      geometry := fun h => absurd h hremember }

end Settings

end Taskman
