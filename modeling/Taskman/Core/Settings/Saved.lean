import Taskman.Core.Settings.Preferences

/-!
# The saved text

The text that settings are saved as is a text of sections: the general one, one for each table and
kind of preference, one for the sort choices and one for the rules.

* `Settings.sections`, `saveText_eq` : the saved text as sections;
* `Settings.SavedEntry` : what the saved text says, entry by entry;
* `mem_values_sections_iff` : **the sections say just these entries**.
-/

namespace Taskman

namespace Settings

variable {crates : SettingsCrates}

/-! ### Sections -/

/-- One section for each table, unless there is nothing to say about it. -/
def tableSections {β : Type} (m : OrdMap Text β) (skip : β → Bool) (f : Text → β → IniSection) :
    List IniSection :=
  m.toList.flatMap fun p => if skip p.2 then [] else [f p.1 p.2]

theorem mem_tableSections {β : Type} {m : OrdMap Text β} {skip : β → Bool}
    {f : Text → β → IniSection} {x : IniSection} :
    x ∈ tableSections m skip f ↔
      ∃ (t : Text) (v : β), m[t]? = some v ∧ skip v = false ∧ x = f t v := by
  unfold tableSections
  rw [List.mem_flatMap]
  constructor
  · rintro ⟨⟨t, v⟩, hmem, hx⟩
    dsimp only at hx
    split_ifs at hx with hskip
    · cases hx
    · exact ⟨t, v, Std.ExtTreeMap.mem_toList_iff_getElem?_eq_some.mp hmem,
        Bool.eq_false_iff.mpr hskip, List.mem_singleton.mp hx⟩
  · rintro ⟨t, v, hv, hskip, rfl⟩
    refine ⟨(t, v), Std.ExtTreeMap.mem_toList_iff_getElem?_eq_some.mpr hv, ?_⟩
    dsimp only
    rw [hskip, if_neg Bool.false_ne_true]
    exact List.mem_singleton_self _

/-- The section of the values. -/
def generalSection (s : Settings) : IniSection where
  name := "general".toList
  comments := []
  entries := s.generalValues.map fun p => (p.1.toList, escapeIni p.2)

/-- The widths of a table, as a section. -/
def widthsOf (table : Text) (cols : OrdMap Text F32) : IniSection where
  name := widthSection table
  comments := ["# column id = width px".toList]
  entries := cols.toList.map fun p => (escapeIni p.1, fmtWidth p.2)

/-- The columns of a table that are shown or hidden, as a section. -/
def visibleOf (table : Text) (cols : OrdMap Text Bool) : IniSection where
  name := visibleSection table
  comments := ["# column id = 0 (hidden) | 1 (shown)".toList]
  entries := cols.toList.map fun p => (escapeIni p.1, if p.2 then "1".toList else "0".toList)

/-- The order of a table, as a section. -/
def orderOf (table : Text) (ids : List Text) : IniSection where
  name := orderSection table
  comments := []
  entries := [("order".toList, escapeIni ([','].intercalate ids))]

/-- The sort preferences, as a section. -/
def sortOf (sort : OrdMap Text SortPreference) : IniSection where
  name := "sort".toList
  comments := ["# table = stable column id, ascending".toList]
  entries := sort.toList.map fun p =>
    (escapeIni p.1, escapeIni p.2.column ++ ',' :: boolText p.2.ascending)

/-- The rules that are saved, in their order. -/
def savedRules (s : Settings) : List (Text × ProcessRule) :=
  s.processRules.toList.filter fun p => p.2.isEmpty = false

/-- The process rules, as a section. -/
def rulesOf (crates : SettingsCrates) (rules : List (Text × ProcessRule)) : IniSection where
  name := "process-rules".toList
  comments := ["# rule.N = JSON [normalized image path, scheduling policy]".toList]
  entries := rules.zipIdx.map fun p =>
    ("rule.".toList ++ Text.digits p.2, escapeIni (crates.ruleToString p.1))

/-- The sections of the saved text. -/
def sections (crates : SettingsCrates) (s : Settings) : List IniSection :=
  s.generalSection :: (tableSections s.colWidths (·.isEmpty) widthsOf ++
    tableSections s.colVisible (·.isEmpty) visibleOf ++
    tableSections s.colOrder (·.isEmpty) orderOf ++
    (if s.tableSort.isEmpty then [] else [sortOf s.tableSort]) ++
    if s.savedRules = [] then [] else [rulesOf crates s.savedRules])

/-- The comments in front of the sections. -/
def front : List Text :=
  ["# taskman configuration — edited values apply on the next start.".toList,
    "# Delete this file to reset all settings to their defaults.".toList]

/-- The text of a section, after an empty line. -/
def sectionText (x : IniSection) : Text := line [] ++ Text.unlines x.lines

theorem sectionText_eq (x : IniSection) :
    sectionText x = line [] ++ line ('[' :: (x.name ++ [']'])) ++ x.comments.flatMap line ++
      x.entries.flatMap fun p => line (p.1 ++ '=' :: p.2) := by
  unfold sectionText Text.unlines IniSection.lines line
  simp only [List.cons_append, List.flatMap_cons, List.flatMap_append, List.flatMap_map,
    List.append_assoc, List.nil_append]

theorem unlines_sectionLines (xs : List IniSection) :
    Text.unlines (sectionLines xs) = xs.flatMap sectionText := by
  unfold Text.unlines sectionLines
  rw [List.flatMap_assoc]
  refine congrArg (xs.flatMap ·) ?_
  funext x
  rfl

theorem flatMap_tableSections {β : Type} (m : OrdMap Text β) (skip : β → Bool)
    (f : Text → β → IniSection) (g : IniSection → Text) :
    (tableSections m skip f).flatMap g =
      m.toList.flatMap fun p => if skip p.2 then [] else g (f p.1 p.2) := by
  unfold tableSections
  rw [List.flatMap_assoc]
  refine congrArg (m.toList.flatMap ·) ?_
  funext p
  split_ifs
  · rfl
  · exact List.flatMap_singleton ..

theorem renderWidths_eq (m : PerColumn F32) :
    renderWidths m = (tableSections m (·.isEmpty) widthsOf).flatMap sectionText := by
  rw [flatMap_tableSections]
  unfold renderWidths
  refine congrArg (m.toList.flatMap ·) ?_
  funext p
  rw [sectionText_eq]
  unfold widthsOf widthSection
  simp only [String.reduceToList, List.flatMap_cons, List.flatMap_nil, List.append_nil,
    List.flatMap_map, List.append_assoc, List.cons_append, List.nil_append]

theorem renderVisible_eq (m : PerColumn Bool) :
    renderVisible m = (tableSections m (·.isEmpty) visibleOf).flatMap sectionText := by
  rw [flatMap_tableSections]
  unfold renderVisible
  refine congrArg (m.toList.flatMap ·) ?_
  funext p
  rw [sectionText_eq]
  unfold visibleOf visibleSection
  simp only [String.reduceToList, List.flatMap_cons, List.flatMap_nil, List.append_nil,
    List.flatMap_map, List.append_assoc, List.cons_append, List.nil_append]

theorem renderOrder_eq (m : OrdMap Text (List Text)) :
    renderOrder m = (tableSections m (·.isEmpty) orderOf).flatMap sectionText := by
  rw [flatMap_tableSections]
  unfold renderOrder
  refine congrArg (m.toList.flatMap ·) ?_
  funext ⟨table, ids⟩
  cases ids with
  | nil => rfl
  | cons id ids =>
    dsimp only
    rw [if_neg (List.cons_ne_nil id ids), List.isEmpty_cons, if_neg Bool.false_ne_true,
      sectionText_eq]
    unfold orderOf orderSection
    simp only [String.reduceToList, List.flatMap_cons, List.flatMap_nil, List.append_nil,
      List.append_assoc, List.cons_append, List.nil_append]

theorem renderSort_eq (sort : OrdMap Text SortPreference) :
    renderSort sort =
      (if sort.isEmpty then [] else [sortOf sort]).flatMap sectionText := by
  unfold renderSort
  split_ifs
  · rfl
  · rw [List.flatMap_singleton, sectionText_eq]
    unfold sortOf
    simp only [String.reduceToList, List.flatMap_cons, List.flatMap_nil, List.append_nil,
      List.flatMap_map, List.append_assoc, List.cons_append, List.nil_append]

theorem renderRules_eq (s : Settings) :
    renderRules crates s.processRules =
      (if s.savedRules = [] then [] else [rulesOf crates s.savedRules]).flatMap sectionText := by
  unfold renderRules savedRules
  dsimp only
  split_ifs
  · rfl
  · rw [List.flatMap_singleton, sectionText_eq]
    unfold rulesOf
    simp only [String.reduceToList, List.flatMap_cons, List.flatMap_nil, List.append_nil,
      List.flatMap_map, List.append_assoc, List.cons_append, List.nil_append]

theorem renderGeneral_eq (s : Settings) :
    line [] ++ s.renderGeneral = sectionText s.generalSection := by
  rw [sectionText_eq]
  unfold renderGeneral generalSection
  simp only [String.reduceToList, List.flatMap_nil, List.append_nil, List.flatMap_map,
    List.append_assoc, List.cons_append, List.nil_append]

/-- **The saved text is a text of sections.** -/
theorem saveText_eq (s : Settings) :
    saveText crates s = Text.unlines (front ++ sectionLines (s.sections crates)) := by
  have hfront : Text.unlines (front ++ sectionLines (s.sections crates)) =
      Text.unlines front ++ Text.unlines (sectionLines (s.sections crates)) := List.flatMap_append
  have hlines : Text.unlines front =
      line "# taskman configuration — edited values apply on the next start.".toList ++
        line "# Delete this file to reset all settings to their defaults.".toList := by
    simp [front, Text.unlines, line]
  rw [hfront, unlines_sectionLines, sections, hlines, List.flatMap_cons, List.flatMap_append,
    List.flatMap_append, List.flatMap_append, List.flatMap_append, ← renderWidths_eq,
    ← renderVisible_eq, ← renderOrder_eq, ← renderSort_eq, ← renderRules_eq, ← renderGeneral_eq]
  unfold saveText renderIni
  simp only [List.append_assoc]

/-! ### Entries -/

/-- What the saved text says. -/
inductive SavedEntry (crates : SettingsCrates) (s : Settings) : (Text × Text) × Text → Prop
  | general {key : String} {value : Text} (h : (key, value) ∈ s.generalValues) :
    SavedEntry crates s (("general".toList, key.toList), value)
  | width {table col : Text} {w : F32} (h : column s.colWidths table col = some w) :
    SavedEntry crates s ((widthSection table, col), fmtWidth w)
  | visible {table col : Text} {on : Bool} (h : column s.colVisible table col = some on) :
    SavedEntry crates s ((visibleSection table, col), if on then "1".toList else "0".toList)
  | order {table : Text} {ids : List Text} (h : s.colOrder[table]? = some ids) :
    SavedEntry crates s ((orderSection table, "order".toList), [','].intercalate ids)
  | sort {table : Text} {preference : SortPreference}
      (h : s.tableSort[table]? = some preference) :
    SavedEntry crates s
      (("sort".toList, table), preference.column ++ ',' :: boolText preference.ascending)
  | rule {index : ℕ} {p : Text × ProcessRule} (h : s.savedRules[index]? = some p) :
    SavedEntry crates s
      (("process-rules".toList, "rule.".toList ++ Text.digits index), crates.ruleToString p)

/-- No key of the saved text needs an escape.  The reader does not undo the escapes of keys. -/
structure PlainKeys (s : Settings) : Prop where
  widths : ∀ p ∈ s.colWidths.toList, ∀ q ∈ p.2.toList, Plain q.1
  visible : ∀ p ∈ s.colVisible.toList, ∀ q ∈ p.2.toList, Plain q.1
  sort : ∀ p ∈ s.tableSort.toList, Plain p.1

theorem plain_of_column {α : Type} {m : PerColumn α}
    (h : ∀ p ∈ m.toList, ∀ q ∈ p.2.toList, Plain q.1) {table col : Text} {v : α}
    (hv : column m table col = some v) : Plain col := by
  obtain ⟨cols, htable, hcol⟩ := column_eq_some_iff.mp hv
  exact h (table, cols) (Std.ExtTreeMap.mem_toList_iff_getElem?_eq_some.mpr htable) (col, v)
    (Std.ExtTreeMap.mem_toList_iff_getElem?_eq_some.mpr hcol)

theorem unescapeIni_of_plain {t : Text} (h : Plain t) : unescapeIni t = t := by
  conv_lhs => rw [← escapeIni_of_plain h]
  exact unescapeIni_escapeIni t

theorem plain_of_digits {t : Text} (h : ∀ c ∈ t, c.isDigit ∨ c = '.') : Plain t := by
  intro c hc
  rcases h c hc with hd | rfl
  · refine ⟨?_, ?_, ?_⟩ <;> rintro rfl <;> exact absurd hd (by decide)
  · decide

theorem unescapeIni_visible (on : Bool) :
    unescapeIni (if on then "1".toList else "0".toList) =
      if on then "1".toList else "0".toList := by
  cases on <;> rfl

theorem escapeIni_sort (preference : SortPreference) :
    escapeIni (preference.column ++ ',' :: boolText preference.ascending) =
      escapeIni preference.column ++ ',' :: boolText preference.ascending := by
  have hplain : Plain (',' :: boolText preference.ascending) := by
    cases preference.ascending <;> decide
  rw [escapeIni_append, escapeIni_of_plain hplain]

/-- The values of a section that lists a map. -/
theorem mem_values_toList {β : Type} {name : Text} {comments : List Text} {m : OrdMap Text β}
    {f : Text × β → Text × Text} {e : (Text × Text) × Text} :
    e ∈ IniSection.values ⟨name, comments, m.toList.map f⟩ ↔
      ∃ (k : Text) (v : β), m[k]? = some v ∧
        e = ((name, (f (k, v)).1), unescapeIni (f (k, v)).2) := by
  unfold IniSection.values
  rw [List.map_map, List.mem_map]
  constructor
  · rintro ⟨⟨k, v⟩, hmem, rfl⟩
    exact ⟨k, v, Std.ExtTreeMap.mem_toList_iff_getElem?_eq_some.mp hmem, rfl⟩
  · rintro ⟨k, v, hv, rfl⟩
    exact ⟨(k, v), Std.ExtTreeMap.mem_toList_iff_getElem?_eq_some.mpr hv, rfl⟩

variable {s : Settings} {e : (Text × Text) × Text}

theorem unescapeIni_fmtWidth {w : F32} (h : widthInRange w) :
    unescapeIni (fmtWidth w) = fmtWidth w :=
  unescapeIni_of_plain (plain_of_digits fun _ => mem_fmtWidth h)

theorem mem_values_general :
    e ∈ s.generalSection.values ↔
      ∃ p ∈ s.generalValues, e = (("general".toList, p.1.toList), p.2) := by
  unfold IniSection.values generalSection
  rw [List.map_map, List.mem_map]
  refine exists_congr fun p => and_congr_right fun _ => ?_
  dsimp only [Function.comp_apply]
  rw [unescapeIni_escapeIni]
  exact eq_comm

/-- What the sections with the preferences of columns say, for widths and for visibility. -/
theorem mem_values_columns {α : Type} {m : PerColumn α} {P : Text → Text → α → Prop}
    (hm : All m P) {f : Text → OrdMap Text α → IniSection} {name : Text → Text}
    {comments : List Text} {value : α → Text}
    (hf : ∀ table cols, f table cols =
      ⟨name table, comments, cols.toList.map fun p => (escapeIni p.1, value p.2)⟩) :
    (∃ x ∈ tableSections m (·.isEmpty) f, e ∈ x.values) ↔
      ∃ table col v, column m table col = some v ∧
        e = ((name table, escapeIni col), unescapeIni (value v)) := by
  constructor
  · rintro ⟨x, hx, he⟩
    obtain ⟨table, cols, htable, -, rfl⟩ := mem_tableSections.mp hx
    rw [hf] at he
    obtain ⟨col, v, hv, rfl⟩ := mem_values_toList.mp he
    exact ⟨table, col, v, column_eq_some_iff.mpr ⟨cols, htable, hv⟩, rfl⟩
  · rintro ⟨table, col, v, hcolumn, rfl⟩
    obtain ⟨cols, htable, hv⟩ := column_eq_some_iff.mp hcolumn
    -- no table of loaded settings is empty, so none is skipped
    have hne : cols.isEmpty = false := (hm table cols htable).1
    refine ⟨f table cols, mem_tableSections.mpr ⟨table, cols, htable, hne, rfl⟩, ?_⟩
    rw [hf]
    exact mem_values_toList.mpr ⟨col, v, hv, rfl⟩

theorem mem_values_orders (hloaded : s.LoadedTables) :
    (∃ x ∈ tableSections s.colOrder (·.isEmpty) orderOf, e ∈ x.values) ↔
      ∃ table ids, s.colOrder[table]? = some ids ∧
        e = ((orderSection table, "order".toList), [','].intercalate ids) := by
  have hvalues : ∀ table ids, (orderOf table ids).values =
      [((orderSection table, "order".toList), [','].intercalate ids)] := by
    intro table ids
    unfold IniSection.values orderOf
    rw [List.map_singleton, unescapeIni_escapeIni]
  constructor
  · rintro ⟨x, hx, he⟩
    obtain ⟨table, ids, htable, -, rfl⟩ := mem_tableSections.mp hx
    rw [hvalues] at he
    exact ⟨table, ids, htable, List.mem_singleton.mp he⟩
  · rintro ⟨table, ids, htable, rfl⟩
    -- loaded orders are not empty, so none is skipped
    have hids : ids.isEmpty = false := Bool.eq_false_iff.mpr fun hnil =>
      (hloaded.order table ids htable).2.1 (List.isEmpty_iff.mp hnil)
    refine ⟨_, mem_tableSections.mpr ⟨table, ids, htable, hids, rfl⟩, ?_⟩
    rw [hvalues]
    exact List.mem_singleton_self _

theorem mem_values_sort (hplain : s.PlainKeys) :
    e ∈ (sortOf s.tableSort).values ↔
      ∃ table preference, s.tableSort[table]? = some preference ∧
        e = (("sort".toList, table),
          preference.column ++ ',' :: boolText preference.ascending) := by
  unfold sortOf
  rw [mem_values_toList]
  refine exists_congr fun table => exists_congr fun preference => and_congr_right fun hsort => ?_
  have hkey : Plain table :=
    hplain.sort (table, preference) (Std.ExtTreeMap.mem_toList_iff_getElem?_eq_some.mpr hsort)
  dsimp only
  rw [← escapeIni_sort, unescapeIni_escapeIni, escapeIni_of_plain hkey]

theorem mem_values_rules {rules : List (Text × ProcessRule)} :
    e ∈ (rulesOf crates rules).values ↔
      ∃ index p, rules[index]? = some p ∧
        e = (("process-rules".toList, "rule.".toList ++ Text.digits index),
          crates.ruleToString p) := by
  unfold IniSection.values rulesOf
  rw [List.map_map, List.mem_map]
  constructor
  · rintro ⟨⟨p, index⟩, hp, rfl⟩
    refine ⟨index, p, List.mk_mem_zipIdx_iff_getElem?.mp hp, ?_⟩
    dsimp only [Function.comp_apply]
    rw [unescapeIni_escapeIni]
  · rintro ⟨index, p, hp, rfl⟩
    refine ⟨(p, index), List.mk_mem_zipIdx_iff_getElem?.mpr hp, ?_⟩
    dsimp only [Function.comp_apply]
    rw [unescapeIni_escapeIni]

theorem exists_mem_ite_nil {c : Prop} [Decidable c] {x : IniSection} (h : e ∈ x.values → ¬ c) :
    (∃ y ∈ (if c then [] else [x]), e ∈ y.values) ↔ e ∈ x.values := by
  by_cases hc : c
  · rw [if_pos hc]
    exact ⟨fun ⟨_, hy, _⟩ => absurd hy List.not_mem_nil, fun he => absurd hc (h he)⟩
  · rw [if_neg hc]
    simp

/-- **The sections say just the saved entries.** -/
theorem mem_values_sections_iff (hloaded : s.LoadedTables) (hplain : s.PlainKeys) :
    (∃ x ∈ s.sections crates, e ∈ x.values) ↔ SavedEntry crates s e := by
  have hwidths := mem_values_columns (e := e) hloaded.widths (f := widthsOf) fun _ _ => rfl
  have hvisible : (∃ x ∈ tableSections s.colVisible (·.isEmpty) visibleOf, e ∈ x.values) ↔
      ∃ table col on, column s.colVisible table col = some on ∧
        e = ((visibleSection table, escapeIni col),
          unescapeIni (if on then "1".toList else "0".toList)) :=
    mem_values_columns hloaded.visible fun _ _ => rfl
  have hsort : e ∈ (sortOf s.tableSort).values → ¬ s.tableSort.isEmpty = true := by
    intro he
    obtain ⟨table, preference, hsort, -⟩ := (mem_values_sort hplain).mp he
    rw [OrdMap.isEmpty_eq_false_iff.mpr ⟨table, preference, hsort⟩]
    exact Bool.false_ne_true
  have hrules : e ∈ (rulesOf crates s.savedRules).values → ¬ s.savedRules = [] := by
    intro he
    obtain ⟨index, p, hp, -⟩ := mem_values_rules.mp he
    exact List.ne_nil_of_mem (List.mem_of_getElem? hp)
  -- six kinds of sections, one kind of entry each
  unfold sections
  simp only [List.mem_cons, List.mem_append, or_and_right, exists_or, exists_eq_left, hwidths,
    hvisible, mem_values_general, mem_values_orders hloaded, exists_mem_ite_nil hsort,
    exists_mem_ite_nil hrules, mem_values_sort hplain, mem_values_rules]
  constructor
  · rintro (⟨p, hp, rfl⟩ | (((⟨table, col, w, hcol, rfl⟩ | ⟨table, col, on, hcol, rfl⟩) |
      ⟨table, ids, hids, rfl⟩) | ⟨table, preference, hp, rfl⟩) | ⟨index, p, hp, rfl⟩)
    · exact .general hp
    · rw [escapeIni_of_plain (plain_of_column hplain.widths hcol),
        unescapeIni_fmtWidth (hloaded.widths.of_column hcol).2.2]
      exact .width hcol
    · rw [escapeIni_of_plain (plain_of_column hplain.visible hcol), unescapeIni_visible]
      exact .visible hcol
    · exact .order hids
    · exact .sort hp
    · exact .rule hp
  · rintro (⟨hp⟩ | ⟨hcol⟩ | ⟨hcol⟩ | ⟨hids⟩ | ⟨hp⟩ | ⟨hp⟩)
    · exact Or.inl ⟨_, hp, rfl⟩
    · refine Or.inr (Or.inl (Or.inl (Or.inl (Or.inl ⟨_, _, _, hcol, ?_⟩))))
      rw [escapeIni_of_plain (plain_of_column hplain.widths hcol),
        unescapeIni_fmtWidth (hloaded.widths.of_column hcol).2.2]
    · refine Or.inr (Or.inl (Or.inl (Or.inl (Or.inr ⟨_, _, _, hcol, ?_⟩))))
      rw [escapeIni_of_plain (plain_of_column hplain.visible hcol), unescapeIni_visible]
    · exact Or.inr (Or.inl (Or.inl (Or.inr ⟨_, _, hids, rfl⟩)))
    · exact Or.inr (Or.inl (Or.inr ⟨_, _, hp, rfl⟩))
    · exact Or.inr (Or.inr ⟨_, _, hp, rfl⟩)

end Settings

end Taskman
