import Taskman.Platform.Startup.DesktopFile

/-!
# What editing Hidden leaves alone

The editor copies every line but the `Hidden` lines under `[Desktop Entry]`.  It puts the copies
together with a line feed each, where a line may have had another ending.

* `Autostart.keptLines` : the lines that are not `Hidden` lines under the section;
* `Autostart.editLines` : the lines the editor writes, one line at a time
  (`setHiddenText_eq_unlines`);
* `Autostart.keptLines_editLines`, `Autostart.editLines_editLines` : these keep the others, and
  editing them again changes nothing;
* `Autostart.edit_only_hidden_iff` : **an edit touches nothing but `Hidden` exactly if no line that
  is kept ends in a carriage return of its own**.
-/

namespace Taskman

namespace Autostart

variable {hidden : Bool} {inEntry wrote : Bool} {raw : Text} {raws : List Text}

/-! ### Lines that are kept -/

/-- Whether the line after this one is under the section. -/
def entryAfter (inEntry : Bool) (raw : Text) : Bool :=
  if raw.trim.head? = some '[' then raw.trim = ENTRY_HEADER else inEntry

/-- A `Hidden` line under the section. -/
def isHiddenLine (inEntry : Bool) (raw : Text) : Bool :=
  inEntry && HIDDEN_KEY.isPrefixOf raw.trim

/-- All lines but the `Hidden` lines under the section. -/
def keptFrom (inEntry : Bool) : List Text → List Text
  | [] => []
  | raw :: raws =>
    if isHiddenLine (entryAfter inEntry raw) raw then keptFrom (entryAfter inEntry raw) raws
    else raw :: keptFrom (entryAfter inEntry raw) raws

/-- The lines of a text other than the `Hidden` lines under its sections. -/
def keptLines (text : Text) : List Text := keptFrom false text.lines

/-! ### Lines that are written -/

/-- The lines the editor writes, from where it is under the section or not and has written the value
or not. -/
def editFrom (hidden : Bool) : Bool → Bool → List Text → List Text
  | inEntry, wrote, [] => if inEntry && !wrote then [hiddenLine hidden] else []
  | inEntry, wrote, raw :: raws =>
    if raw.trim.head? = some '[' then
      (if inEntry && !wrote then [hiddenLine hidden] else []) ++
        raw :: editFrom hidden (raw.trim = ENTRY_HEADER) (wrote || inEntry) raws
    else if isHiddenLine inEntry raw then hiddenLine hidden :: editFrom hidden inEntry true raws
    else raw :: editFrom hidden inEntry wrote raws

/-- The lines the editor writes. -/
def editLines (hidden : Bool) (text : Text) : List Text := editFrom hidden false false text.lines

theorem not_prefix_of_header (h : raw.trim.head? = some '[') :
    HIDDEN_KEY.isPrefixOf raw.trim = false := by
  refine Bool.eq_false_iff.mpr fun hkey => ?_
  rw [head?_of_hidden hkey] at h
  cases h

theorem not_isHiddenLine_of_header (h : raw.trim.head? = some '[') :
    isHiddenLine inEntry raw = false := by
  rw [isHiddenLine, not_prefix_of_header h, Bool.and_false]

theorem entryAfter_of_not_header (h : raw.trim.head? ≠ some '[') :
    entryAfter inEntry raw = inEntry := if_neg h

theorem not_header_hiddenLine (hidden : Bool) : (hiddenLine hidden).trim.head? ≠ some '[' := by
  rw [head?_trim_hiddenLine]
  decide

theorem isHiddenLine_hiddenLine (hidden : Bool) : isHiddenLine true (hiddenLine hidden) = true := by
  rw [isHiddenLine, trim_hiddenLine, hiddenLine, Bool.true_and, List.isPrefixOf_iff_prefix]
  exact List.prefix_append _ _

theorem stripCr_hiddenLine (hidden : Bool) :
    Text.stripCr (hiddenLine hidden) = hiddenLine hidden := by
  cases hidden <;> decide

theorem unlines_cons (l : Text) (ls : List Text) :
    Text.unlines (l :: ls) = l ++ ['\n'] ++ Text.unlines ls := by
  rw [Text.unlines, List.flatMap_cons, ← Text.unlines]

/-- The editor writes these lines. -/
theorem foldl_editLine (hidden : Bool) (raws : List Text) :
    ∀ e : Edit, ((raws.foldl (Edit.line hidden) e).close hidden).out =
      e.out ++ Text.unlines (editFrom hidden e.inEntry e.wrote raws) := by
  induction raws with
  | nil =>
    intro e
    rw [List.foldl_nil, Edit.close, editFrom]
    split
    · rw [unlines_cons]
      simp [Edit.write, Text.unlines]
    · simp [Text.unlines]
  | cons raw raws ih =>
    intro e
    rw [List.foldl_cons, ih, editFrom]
    -- a header closes the section before it: an entry section without a `Hidden` line gets
    -- its line there
    by_cases hhead : raw.trim.head? = some '['
    · have hplain : HIDDEN_KEY.isPrefixOf raw.trim = false := not_prefix_of_header hhead
      have hline : e.line hidden raw =
          ⟨(e.close hidden).out ++ (raw ++ ['\n']), raw.trim = ENTRY_HEADER,
            (e.close hidden).wrote⟩ := by
        simp [Edit.line, hhead, hplain]
      rw [hline, if_pos hhead]
      cases hopen : e.inEntry && !e.wrote with
      | true =>
        obtain ⟨hin, -⟩ := Bool.and_eq_true_iff.mp hopen
        have hclose : e.close hidden = e.write hidden := if_pos hopen
        rw [hclose, if_pos rfl, hin, Bool.or_true, List.singleton_append, unlines_cons,
          unlines_cons]
        simp [Edit.write]
      | false =>
        have hclose : e.close hidden = e := if_neg (by rw [hopen]; exact Bool.false_ne_true)
        have hwrote : (e.wrote || e.inEntry) = e.wrote := by
          cases hin : e.inEntry with
          | false => exact Bool.or_false _
          | true =>
            rw [hin, Bool.true_and, Bool.not_eq_false'] at hopen
            rw [Bool.or_true, hopen]
        rw [hclose, if_neg Bool.false_ne_true, List.nil_append, hwrote, unlines_cons]
        simp
    · rw [if_neg hhead]
      cases hvalue : isHiddenLine e.inEntry raw with
      | true =>
        have hline : e.line hidden raw = e.write hidden := by
          simp only [Edit.line, if_neg hhead]
          exact if_pos hvalue
        rw [hline, if_pos rfl, unlines_cons]
        simp [Edit.write]
      | false =>
        have hline : e.line hidden raw = { e with out := e.out ++ (raw ++ ['\n']) } := by
          simp only [Edit.line, if_neg hhead]
          exact if_neg (by rw [← isHiddenLine, hvalue]; exact Bool.false_ne_true)
        rw [hline, if_neg Bool.false_ne_true, unlines_cons]
        simp

theorem setHiddenText_eq_unlines (hidden : Bool) (text : Text) :
    setHiddenText hidden text = Text.unlines (editLines hidden text) :=
  (foldl_editLine hidden text.lines {}).trans (List.nil_append _)

/-- A written line is the value's, or one that is kept. -/
theorem mem_editFrom {l : Text} (h : l ∈ editFrom hidden inEntry wrote raws) :
    l = hiddenLine hidden ∨ l ∈ keptFrom inEntry raws := by
  have hclose : ∀ {inEntry wrote : Bool},
      l ∈ (if inEntry && !wrote then [hiddenLine hidden] else []) → l = hiddenLine hidden := by
    intro inEntry wrote hl
    split at hl
    · exact List.mem_singleton.mp hl
    · cases hl
  induction raws generalizing inEntry wrote with
  | nil => exact Or.inl (hclose h)
  | cons raw raws ih =>
    rw [editFrom] at h
    rw [keptFrom]
    by_cases hhead : raw.trim.head? = some '['
    · rw [if_pos hhead] at h
      have hafter : entryAfter inEntry raw = decide (raw.trim = ENTRY_HEADER) := if_pos hhead
      rw [not_isHiddenLine_of_header hhead, hafter, if_neg Bool.false_ne_true]
      rcases List.mem_append.mp h with h | h
      · exact Or.inl (hclose h)
      · rcases List.mem_cons.mp h with rfl | h
        · exact Or.inr List.mem_cons_self
        · exact (ih h).imp id (List.mem_cons_of_mem _)
    · rw [if_neg hhead] at h
      rw [entryAfter_of_not_header hhead]
      cases hline : isHiddenLine inEntry raw with
      | true =>
        rw [hline, if_pos rfl] at h
        rcases List.mem_cons.mp h with rfl | h
        · exact Or.inl rfl
        · exact ih h
      | false =>
        rw [hline, if_neg Bool.false_ne_true] at h
        rcases List.mem_cons.mp h with rfl | h
        · exact Or.inr List.mem_cons_self
        · exact (ih h).imp id (List.mem_cons_of_mem _)

theorem keptFrom_header (h : raw.trim.head? = some '[') :
    keptFrom inEntry (raw :: raws) = raw :: keptFrom (raw.trim = ENTRY_HEADER) raws := by
  rw [keptFrom, not_isHiddenLine_of_header h, if_neg Bool.false_ne_true]
  exact congrArg (fun b => raw :: keptFrom b raws) (if_pos h)

theorem keptFrom_hidden (h : raw.trim.head? ≠ some '[') (hline : isHiddenLine inEntry raw = true) :
    keptFrom inEntry (raw :: raws) = keptFrom inEntry raws := by
  rw [keptFrom, entryAfter_of_not_header h, hline, if_pos rfl]

theorem keptFrom_other (h : raw.trim.head? ≠ some '[') (hline : isHiddenLine inEntry raw = false) :
    keptFrom inEntry (raw :: raws) = raw :: keptFrom inEntry raws := by
  rw [keptFrom, entryAfter_of_not_header h, hline, if_neg Bool.false_ne_true]

theorem keptFrom_hiddenLine (hidden : Bool) (raws : List Text) :
    keptFrom true (hiddenLine hidden :: raws) = keptFrom true raws :=
  keptFrom_hidden (not_header_hiddenLine hidden) (isHiddenLine_hiddenLine hidden)

/-- **The lines the editor writes keep all lines but the `Hidden` ones.** -/
theorem keptFrom_editFrom (hidden : Bool) (raws : List Text) : ∀ inEntry wrote : Bool,
    keptFrom inEntry (editFrom hidden inEntry wrote raws) = keptFrom inEntry raws := by
  induction raws with
  | nil =>
    intro inEntry wrote
    rw [editFrom]
    split
    · rename_i hopen
      obtain ⟨rfl, -⟩ := Bool.and_eq_true_iff.mp hopen
      exact keptFrom_hiddenLine hidden []
    · rfl
  | cons raw raws ih =>
    intro inEntry wrote
    rw [editFrom]
    by_cases hhead : raw.trim.head? = some '['
    · rw [if_pos hhead, keptFrom_header hhead]
      split
      · rename_i hopen
        obtain ⟨rfl, -⟩ := Bool.and_eq_true_iff.mp hopen
        rw [List.singleton_append, keptFrom_hiddenLine, keptFrom_header hhead, ih]
      · rw [List.nil_append, keptFrom_header hhead, ih]
    · rw [if_neg hhead]
      cases hline : isHiddenLine inEntry raw with
      | true =>
        obtain ⟨rfl, -⟩ := Bool.and_eq_true_iff.mp hline
        rw [if_pos rfl, keptFrom_hiddenLine, ih, keptFrom_hidden hhead hline]
      | false =>
        rw [if_neg Bool.false_ne_true, keptFrom_other hhead hline, ih,
          keptFrom_other hhead hline]

theorem editFrom_header (h : raw.trim.head? = some '[') :
    editFrom hidden inEntry wrote (raw :: raws) =
      (if inEntry && !wrote then [hiddenLine hidden] else []) ++
        raw :: editFrom hidden (raw.trim = ENTRY_HEADER) (wrote || inEntry) raws := by
  rw [editFrom, if_pos h]

theorem editFrom_hiddenLine (hidden wrote : Bool) (raws : List Text) :
    editFrom hidden true wrote (hiddenLine hidden :: raws) =
      hiddenLine hidden :: editFrom hidden true true raws := by
  rw [editFrom, if_neg (not_header_hiddenLine hidden), isHiddenLine_hiddenLine, if_pos rfl]

/-- **Editing the written lines again changes nothing.** -/
theorem editFrom_editFrom (hidden : Bool) (raws : List Text) : ∀ inEntry wrote : Bool,
    editFrom hidden inEntry wrote (editFrom hidden inEntry wrote raws) =
      editFrom hidden inEntry wrote raws := by
  induction raws with
  | nil =>
    intro inEntry wrote
    rw [editFrom]
    split
    · rename_i hopen
      obtain ⟨rfl, -⟩ := Bool.and_eq_true_iff.mp hopen
      rw [editFrom_hiddenLine]
      rfl
    · rename_i hopen
      rw [editFrom, if_neg hopen]
  | cons raw raws ih =>
    intro inEntry wrote
    by_cases hhead : raw.trim.head? = some '['
    · rw [editFrom_header hhead]
      split
      · -- the value is there now, so that the section does not end without it again
        rename_i hopen
        obtain ⟨rfl, -⟩ := Bool.and_eq_true_iff.mp hopen
        rw [List.singleton_append, editFrom_hiddenLine, editFrom_header hhead, Bool.or_true,
          Bool.or_true, Bool.not_true, Bool.and_false, if_neg Bool.false_ne_true, List.nil_append,
          ih]
      · rename_i hopen
        rw [List.nil_append, editFrom_header hhead, if_neg hopen, List.nil_append, ih]
    · rw [editFrom, if_neg hhead]
      cases hline : isHiddenLine inEntry raw with
      | true =>
        obtain ⟨rfl, -⟩ := Bool.and_eq_true_iff.mp hline
        rw [if_pos rfl, editFrom_hiddenLine, ih]
      | false =>
        rw [if_neg Bool.false_ne_true, editFrom, if_neg hhead, hline,
          if_neg Bool.false_ne_true, ih]

/-! ### Texts -/

theorem keptFrom_map_stripCr (raws : List Text) : ∀ inEntry : Bool,
    keptFrom inEntry (raws.map Text.stripCr) = (keptFrom inEntry raws).map Text.stripCr := by
  induction raws with
  | nil => exact fun _ => rfl
  | cons raw raws ih =>
    intro inEntry
    have hafter : entryAfter inEntry (Text.stripCr raw) = entryAfter inEntry raw := by
      rw [entryAfter, entryAfter, Text.trim_stripCr]
    have hline : isHiddenLine (entryAfter inEntry raw) (Text.stripCr raw) =
        isHiddenLine (entryAfter inEntry raw) raw := by
      rw [isHiddenLine, isHiddenLine, Text.trim_stripCr]
    rw [List.map_cons, keptFrom, keptFrom, hafter, hline, ih]
    split
    · rfl
    · rfl

/-- What a line of a text contains is not a line feed, nor does it after the edit. -/
theorem newline_notMem_editLines (hidden : Bool) (text : Text) :
    ∀ l ∈ editLines hidden text, '\n' ∉ l := by
  have hkept : ∀ (raws : List Text) (inEntry : Bool), ∀ l ∈ keptFrom inEntry raws, l ∈ raws := by
    intro raws
    induction raws with
    | nil => exact fun _ l hl => hl
    | cons raw raws ih =>
      intro inEntry l hl
      rw [keptFrom] at hl
      split at hl
      · exact List.mem_cons_of_mem _ (ih _ l hl)
      · rcases List.mem_cons.mp hl with rfl | hl
        · exact List.mem_cons_self
        · exact List.mem_cons_of_mem _ (ih _ l hl)
  intro l hl
  rcases mem_editFrom hl with rfl | hl
  · exact newline_notMem_hiddenLine hidden
  · exact Text.newline_notMem_of_mem_lines (hkept _ _ l hl)

theorem lines_setHiddenText (hidden : Bool) (text : Text) :
    (setHiddenText hidden text).lines = (editLines hidden text).map Text.stripCr := by
  rw [setHiddenText_eq_unlines, Text.lines_unlines (newline_notMem_editLines hidden text)]

theorem keptLines_setHiddenText (hidden : Bool) (text : Text) :
    keptLines (setHiddenText hidden text) = (keptLines text).map Text.stripCr := by
  rw [keptLines, lines_setHiddenText, keptFrom_map_stripCr, editLines, keptFrom_editFrom, keptLines]

theorem stripCr_eq_self_iff {l : Text} : Text.stripCr l = l ↔ l.getLast? ≠ some '\r' := by
  unfold Text.stripCr
  split_ifs with h
  · refine iff_of_false (fun heq => ?_) (not_not.mpr h)
    have hlength := congrArg List.length heq
    rw [List.length_dropLast] at hlength
    have hne : l ≠ [] := by
      rintro rfl
      cases h
    have hpos : 0 < l.length := List.length_pos_iff.mpr hne
    omega
  · exact iff_of_true rfl h

theorem map_stripCr_eq_self_iff {ls : List Text} :
    ls.map Text.stripCr = ls ↔ ∀ l ∈ ls, l.getLast? ≠ some '\r' := by
  have hmap : ls.map Text.stripCr = ls ↔ ∀ l ∈ ls, Text.stripCr l = id l := by
    rw [← List.map_inj_left, List.map_id]
  rw [hmap]
  exact forall₂_congr fun l _ => stripCr_eq_self_iff

/-- What an edit of `Hidden` promises of a text. -/
structure EditsOnlyHidden (value : Bool) (text : Text) : Prop where
  hidden : (parseText (setHiddenText value text)).hidden = some value
  name : (parseText (setHiddenText value text)).name = (parseText text).name
  exec : (parseText (setHiddenText value text)).exec = (parseText text).exec
  kept : keptLines (setHiddenText value text) = keptLines text
  again : setHiddenText value (setHiddenText value text) = setHiddenText value text

/-- **An edit touches nothing but `Hidden` exactly if no line that is kept ends in a carriage return
of its own**, for every text with the section. -/
theorem edit_only_hidden_iff (hidden : Bool) (text : Text) (hentry : HasEntry text) :
    EditsOnlyHidden hidden text ↔ ∀ l ∈ keptLines text, l.getLast? ≠ some '\r' := by
  rw [← map_stripCr_eq_self_iff, ← keptLines_setHiddenText hidden]
  refine ⟨fun h => h.kept, fun hkept => ?_⟩
  have hparse := parseText_setHiddenText hidden text
  rw [if_pos hentry] at hparse
  refine ⟨by rw [hparse], by rw [hparse], by rw [hparse], hkept, ?_⟩
  have hstrip : (editLines hidden text).map Text.stripCr = editLines hidden text := by
    rw [keptLines_setHiddenText, map_stripCr_eq_self_iff] at hkept
    refine map_stripCr_eq_self_iff.mpr fun l hl => ?_
    rcases mem_editFrom hl with rfl | hl
    · exact stripCr_eq_self_iff.mp (stripCr_hiddenLine hidden)
    · exact hkept l hl
  have hagain : editLines hidden (setHiddenText hidden text) = editLines hidden text := by
    rw [editLines, lines_setHiddenText, hstrip, editLines, editFrom_editFrom]
  rw [setHiddenText_eq_unlines, hagain, ← setHiddenText_eq_unlines]

/-- Carriage returns before a line ending stay away from the kept lines. -/
theorem edit_only_hidden_desktop_entry :
    EditsOnlyHidden true "[Desktop Entry]\r\nHidden=false\r\r\nExec=a".toList :=
  (edit_only_hidden_iff true _ (by decide +kernel)).mpr (by decide +kernel)

/-- A carriage return at the end of the last line is made part of a line ending by the first edit,
and is gone after the second. -/
theorem lone_carriage_return :
    let text := "[Desktop Entry]\nExec=a\r".toList
    setHiddenText true text = "[Desktop Entry]\nExec=a\r\nHidden=true\n".toList ∧
      setHiddenText true (setHiddenText true text) =
        "[Desktop Entry]\nExec=a\nHidden=true\n".toList ∧
      HasEntry text ∧ ¬ EditsOnlyHidden true text := by
  intro text
  have hfirst : setHiddenText true text =
      "[Desktop Entry]\nExec=a\r\nHidden=true\n".toList := by decide +kernel
  have hsecond : setHiddenText true (setHiddenText true text) =
      "[Desktop Entry]\nExec=a\nHidden=true\n".toList := by decide +kernel
  refine ⟨hfirst, hsecond, by decide +kernel, fun h => ?_⟩
  have hagain := h.again
  rw [hsecond, hfirst] at hagain
  revert hagain
  decide +kernel

end Autostart

end Taskman
