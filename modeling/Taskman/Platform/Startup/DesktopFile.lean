import Taskman.Text.Scan

/-!
# Desktop files

The text of an autostart entry: lines, of which those under `[Desktop Entry]` name it, give its
command and may hide it.

* `Autostart.parseText` : the reader;
* `Autostart.setHiddenText` : the editor, which changes the `Hidden` lines and nothing else;
* `Autostart.overrideText` : the text that shadows an entry without being one itself;
* `Autostart.parseText_setHiddenText` : **an edited text is read with the value it was edited to,
  exactly where it has the section**.
-/

namespace Taskman

namespace Autostart

/-- The section that describes the entry. -/
def ENTRY_HEADER : Text := "[Desktop Entry]".toList

/-- What the line with the name begins with. -/
def NAME_KEY : Text := "Name=".toList

/-- What the line with the command begins with. -/
def EXEC_KEY : Text := "Exec=".toList

/-- What the line that may hide the entry begins with. -/
def HIDDEN_KEY : Text := "Hidden=".toList

/-- The line that marks an override. -/
def TASKMAN_OVERRIDE_KEY : Text := "X-Taskman-Override=true".toList

/-- What a desktop file says. -/
structure DesktopFile where
  name : Option Text := none
  exec : Option Text := none
  hidden : Option Bool := none
  source : Text := []
  deriving DecidableEq

/-! ### The reader -/

/-- The words for `true`. -/
def TRUE_WORDS : List Text := ["true", "1", "yes"].map String.toList

/-- The words for `false`. -/
def FALSE_WORDS : List Text := ["false", "0", "no"].map String.toList

local instance : LawfulBEq Text := List.instLawfulBEq

/-- The value of a word, in any case and with blanks around it. -/
def parseBool (t : Text) : Option Bool :=
  let word := t.trim.toAsciiLowercase
  if word ∈ TRUE_WORDS then some true else if word ∈ FALSE_WORDS then some false else none

/-- The loop of `parse_desktop`: whether the next line is under `[Desktop Entry]`, and what was
read. -/
structure Reading where
  inEntry : Bool := false
  file : DesktopFile := {}
  deriving DecidableEq

/-- One line read. -/
def Reading.line (r : Reading) (raw : Text) : Reading :=
  let line := raw.trim
  if line.head? = some '[' then { r with inEntry := line = ENTRY_HEADER }
  else if !r.inEntry || line.head? = some '#' then r
  else
    match line.stripPrefix NAME_KEY with
    | some v => { r with file := { r.file with name := some (r.file.name.getD v) } }
    | none =>
      match line.stripPrefix EXEC_KEY with
      | some v => { r with file := { r.file with exec := some v } }
      | none =>
        match line.stripPrefix HIDDEN_KEY with
        | some v => { r with file := { r.file with hidden := parseBool v } }
        | none => r

/-- Lines read one after another. -/
def Reading.lines (r : Reading) (raws : List Text) : Reading := raws.foldl Reading.line r

/-- What a text says. -/
def parseText (text : Text) : DesktopFile := (Reading.lines {} text.lines).file

/-- `parse_desktop`; the text is absent where it could not be read. -/
def parseDesktop (path : Text) (text : Option Text) : DesktopFile :=
  match text with
  | some text => { parseText text with source := path }
  | none => { source := path }

/-- `is_taskman_override`. -/
def isTaskmanOverride (text : Text) : Bool :=
  text.lines.any fun line => line.trim = TASKMAN_OVERRIDE_KEY

/-! ### The editor -/

/-- The line the editor writes. -/
def hiddenLine (hidden : Bool) : Text :=
  HIDDEN_KEY ++ (if hidden then "true".toList else "false".toList)

/-- The loop of `set_hidden_in_file`. -/
structure Edit where
  out : Text := []
  inEntry : Bool := false
  wrote : Bool := false

/-- A line of its own for the value. -/
def Edit.write (hidden : Bool) (e : Edit) : Edit :=
  { e with out := e.out ++ (hiddenLine hidden ++ ['\n']), wrote := true }

/-- The value written where the section ends without it. -/
def Edit.close (hidden : Bool) (e : Edit) : Edit :=
  if e.inEntry && !e.wrote then e.write hidden else e

/-- One line copied or replaced. -/
def Edit.line (hidden : Bool) (e : Edit) (raw : Text) : Edit :=
  let line := raw.trim
  let e :=
    if line.head? = some '[' then { e.close hidden with inEntry := line = ENTRY_HEADER } else e
  if e.inEntry && HIDDEN_KEY.isPrefixOf line then e.write hidden
  else { e with out := e.out ++ (raw ++ ['\n']) }

/-- The text `set_hidden_in_file` writes. -/
def setHiddenText (hidden : Bool) (text : Text) : Text :=
  ((text.lines.foldl (Edit.line hidden) {}).close hidden).out

/-! ### The override -/

/-- The line of an override that says it describes an application. -/
def TYPE_LINE : Text := "Type=Application".toList

/-- The text that shadows an entry. -/
def overrideText (stem : Text) : Text :=
  ENTRY_HEADER ++ '\n' :: TYPE_LINE ++ '\n' :: NAME_KEY ++ stem ++ '\n' :: hiddenLine true ++
    '\n' :: TASKMAN_OVERRIDE_KEY ++ ['\n']

/-! ### Lines -/

/-- A text has the section of the entry. -/
def HasEntry (text : Text) : Prop := ∃ raw ∈ text.lines, raw.trim = ENTRY_HEADER

instance (text : Text) : Decidable (HasEntry text) := List.decidableBEx _ _

@[simp]
theorem Reading.line_stripCr (r : Reading) (raw : Text) :
    r.line (Text.stripCr raw) = r.line raw := by
  simp only [Reading.line, Text.trim_stripCr]

@[simp]
theorem Reading.lines_append (r : Reading) (raws raws' : List Text) :
    r.lines (raws ++ raws') = (r.lines raws).lines raws' :=
  List.foldl_append

theorem Reading.lines_unlines (r : Reading) {raws : List Text} (h : ∀ raw ∈ raws, '\n' ∉ raw) :
    r.lines (Text.unlines raws).lines = r.lines raws := by
  rw [Text.lines_unlines h, Reading.lines, List.foldl_map]
  simp only [Reading.line_stripCr]
  rfl

/-- What was read, with another value for `Hidden`. -/
def Reading.withHidden (h : Option Bool) (r : Reading) : Reading :=
  { r with file := { r.file with hidden := h } }

@[simp]
theorem Reading.withHidden_inEntry (h : Option Bool) (r : Reading) :
    (r.withHidden h).inEntry = r.inEntry := rfl

@[simp]
theorem Reading.withHidden_hidden (h : Option Bool) (r : Reading) :
    (r.withHidden h).file.hidden = h := rfl

@[simp]
theorem Reading.withHidden_withHidden (h h' : Option Bool) (r : Reading) :
    (r.withHidden h').withHidden h = r.withHidden h := rfl

theorem Reading.withHidden_eq_self {r : Reading} {h : Option Bool} (hr : r.file.hidden = h) :
    r.withHidden h = r := by
  subst hr
  rfl

theorem Reading.line_header (r : Reading) {raw : Text} (h : raw.trim.head? = some '[') :
    r.line raw = { r with inEntry := raw.trim = ENTRY_HEADER } := if_pos h

/-- No other line does. -/
theorem Reading.inEntry_line (r : Reading) {raw : Text} (h : raw.trim.head? ≠ some '[') :
    (r.line raw).inEntry = r.inEntry := by
  simp only [Reading.line, if_neg h]
  split_ifs
  · rfl
  · split
    · rfl
    · split
      · rfl
      · split <;> rfl

theorem head?_of_hidden {t : Text} (h : HIDDEN_KEY.isPrefixOf t = true) : t.head? = some 'H' := by
  obtain ⟨v, rfl⟩ := List.isPrefixOf_iff_prefix.mp h
  rfl

/-- A `Hidden` line under the section sets the value. -/
theorem Reading.line_hidden {r : Reading} (hr : r.inEntry = true) {raw v : Text}
    (h : raw.trim = HIDDEN_KEY ++ v) : r.line raw = r.withHidden (parseBool v) := by
  have hname : (HIDDEN_KEY ++ v).stripPrefix NAME_KEY = none := rfl
  have hexec : (HIDDEN_KEY ++ v).stripPrefix EXEC_KEY = none := rfl
  have hhead : (HIDDEN_KEY ++ v).head? = some 'H' := rfl
  simp [Reading.line, h, hhead, hr, hname, hexec, Reading.withHidden]

/-- Any other line does not look at it. -/
theorem Reading.withHidden_line (r : Reading) (h : Option Bool) {raw : Text}
    (hline : ¬(r.inEntry = true ∧ HIDDEN_KEY.isPrefixOf raw.trim = true)) :
    (r.withHidden h).line raw = (r.line raw).withHidden h := by
  have hnone : r.inEntry = true → raw.trim.stripPrefix HIDDEN_KEY = none := by
    intro hin
    refine Option.eq_none_iff_forall_ne_some.mpr fun v hv => hline ⟨hin, ?_⟩
    exact List.isPrefixOf_iff_prefix.mpr ⟨v, (Text.stripPrefix_eq_some_iff.mp hv).symm⟩
  unfold Reading.line
  by_cases hhead : raw.trim.head? = some '['
  · simp only [hhead, if_true]
    rfl
  · cases hin : r.inEntry with
    | false => simp [hhead, hin]
    | true =>
      simp only [hhead, hnone hin, hin, Reading.withHidden_inEntry, if_false]
      split_ifs
      · rfl
      · split
        · rfl
        · split <;> rfl

theorem trim_hiddenLine (hidden : Bool) : (hiddenLine hidden).trim = hiddenLine hidden := by
  cases hidden <;> decide +kernel

theorem head?_trim_hiddenLine (hidden : Bool) : (hiddenLine hidden).trim.head? = some 'H' := by
  rw [trim_hiddenLine]
  rfl

/-- The line of the editor reads as its value. -/
theorem Reading.line_hiddenLine {r : Reading} (hr : r.inEntry = true) (hidden : Bool) :
    r.line (hiddenLine hidden) = r.withHidden (some hidden) := by
  have hvalue : ∃ v, (hiddenLine hidden).trim = HIDDEN_KEY ++ v ∧ parseBool v = some hidden := by
    cases hidden
    · exact ⟨"false".toList, trim_hiddenLine false, rfl⟩
    · exact ⟨"true".toList, trim_hiddenLine true, rfl⟩
  obtain ⟨v, htrim, hv⟩ := hvalue
  rw [Reading.line_hidden hr htrim, hv]

theorem newline_notMem_hiddenLine (hidden : Bool) : '\n' ∉ hiddenLine hidden := by
  cases hidden <;> decide

/-! ### An edited text -/

/-- What the editor has written after some lines: lines that are read as those were, apart from the
value of `Hidden`, and under the section as they were. -/
structure Edited (hidden : Bool) (raws : List Text) (e : Edit) : Prop where
  written : ∃ ls, e.out = Text.unlines ls ∧ (∀ l ∈ ls, '\n' ∉ l) ∧
    Reading.lines {} ls =
      (Reading.lines {} raws).withHidden (if e.wrote then some hidden else none)
  inEntry : (Reading.lines {} raws).inEntry = e.inEntry
  unset : e.wrote = false → (Reading.lines {} raws).file.hidden = none
  opened : (e.wrote = true ∨ e.inEntry = true) ↔ ∃ raw ∈ raws, raw.trim = ENTRY_HEADER

theorem unlines_concat (ls : List Text) (l : Text) :
    Text.unlines (ls ++ [l]) = Text.unlines ls ++ (l ++ ['\n']) := by
  simp [Text.unlines]

theorem Edited.start (hidden : Bool) : Edited hidden [] {} where
  written := ⟨[], rfl, by simp, rfl⟩
  inEntry := rfl
  unset := fun _ => rfl
  opened := by simp

variable {hidden : Bool} {raws : List Text} {e : Edit}

/-- What one more written line is read as. -/
theorem Edited.push (h : Edited hidden raws e) {l : Text} (hl : '\n' ∉ l) :
    ∃ ls, e.out ++ (l ++ ['\n']) = Text.unlines ls ∧ (∀ l ∈ ls, '\n' ∉ l) ∧
      Reading.lines {} ls =
        ((Reading.lines {} raws).withHidden (if e.wrote then some hidden else none)).line l := by
  obtain ⟨ls, hout, hnl, hread⟩ := h.written
  refine ⟨ls ++ [l], ?_, fun k hk => ?_, ?_⟩
  · rw [hout, unlines_concat]
  · rcases List.mem_append.mp hk with hk | hk
    · exact hnl k hk
    · exact List.mem_singleton.mp hk ▸ hl
  · rw [Reading.lines_append, hread]
    rfl

/-- The value written on a line of its own. -/
theorem Edited.pushValue (h : Edited hidden raws e) (hin : e.inEntry = true) :
    ∃ ls, (e.write hidden).out = Text.unlines ls ∧ (∀ l ∈ ls, '\n' ∉ l) ∧
      Reading.lines {} ls = (Reading.lines {} raws).withHidden (some hidden) := by
  obtain ⟨ls, hout, hnl, hread⟩ := h.push (newline_notMem_hiddenLine hidden)
  refine ⟨ls, hout, hnl, hread.trans ?_⟩
  have hopen :
      ((Reading.lines {} raws).withHidden (if e.wrote then some hidden else none)).inEntry = true :=
    h.inEntry.trans hin
  rw [Reading.line_hiddenLine hopen, Reading.withHidden_withHidden]

/-- The value is written where the section ends without it. -/
theorem Edited.close (h : Edited hidden raws e) :
    Edited hidden raws (e.close hidden) ∧
      ((e.close hidden).wrote = false → (e.close hidden).inEntry = false) := by
  unfold Edit.close
  split_ifs with hopen
  · obtain ⟨hin, -⟩ := Bool.and_eq_true_iff.mp hopen
    refine ⟨⟨h.pushValue hin, h.inEntry, fun hw => ?_, ?_⟩, fun hw => ?_⟩
    · cases hw
    · exact iff_of_true (Or.inl rfl) (h.opened.mp (Or.inr hin))
    · cases hw
  · refine ⟨h, fun hw => ?_⟩
    simpa [hw] using hopen

/-- A line copied: read as it was. -/
theorem Edited.copied (h : Edited hidden raws e) {raw : Text} (hraw : '\n' ∉ raw)
    (hline : ¬(e.inEntry = true ∧ HIDDEN_KEY.isPrefixOf raw.trim = true)) :
    (∃ ls, e.out ++ (raw ++ ['\n']) = Text.unlines ls ∧ (∀ l ∈ ls, '\n' ∉ l) ∧
      Reading.lines {} ls = (Reading.lines {} (raws ++ [raw])).withHidden
        (if e.wrote then some hidden else none)) ∧
    (e.wrote = false → (Reading.lines {} (raws ++ [raw])).file.hidden = none) := by
  rw [← h.inEntry] at hline
  have hsnoc : Reading.lines {} (raws ++ [raw]) = (Reading.lines {} raws).line raw :=
    Reading.lines_append _ _ _
  rw [hsnoc]
  constructor
  · obtain ⟨ls, hout, hnl, hread⟩ := h.push hraw
    exact ⟨ls, hout, hnl, hread.trans (Reading.withHidden_line _ _ hline)⟩
  · intro hw
    have hself := Reading.withHidden_line (Reading.lines {} raws) none hline
    rw [Reading.withHidden_eq_self (h.unset hw)] at hself
    rw [hself, Reading.withHidden_hidden]

theorem exists_mem_concat {raw : Text} :
    (∃ r ∈ raws ++ [raw], r.trim = ENTRY_HEADER) ↔
      (∃ r ∈ raws, r.trim = ENTRY_HEADER) ∨ raw.trim = ENTRY_HEADER := by
  simp [or_and_right, exists_or]

/-- **One line edited.** -/
theorem Edited.line (h : Edited hidden raws e) {raw : Text} (hraw : '\n' ∉ raw) :
    Edited hidden (raws ++ [raw]) (e.line hidden raw) := by
  have hsnoc : Reading.lines {} (raws ++ [raw]) = (Reading.lines {} raws).line raw :=
    Reading.lines_append _ _ _
  unfold Edit.line
  by_cases hhead : raw.trim.head? = some '['
  · -- a header is copied, after the value where the section it ends lacks it
    obtain ⟨hclosed, hsettled⟩ := h.close
    have hplain : ¬ HIDDEN_KEY.isPrefixOf raw.trim = true := fun hp => by
      rw [head?_of_hidden hp] at hhead
      cases hhead
    obtain ⟨hwritten, hunset⟩ := hclosed.copied hraw fun hp => hplain hp.2
    simp only [hhead, if_true, hplain, Bool.and_false, Bool.false_eq_true, if_false]
    refine ⟨hwritten, ?_, hunset, ?_⟩
    · rw [hsnoc, Reading.line_header _ hhead]
    · rw [exists_mem_concat, ← hclosed.opened, decide_eq_true_iff]
      refine or_congr_left (or_iff_left_of_imp fun hin => ?_).symm
      by_contra hw
      rw [hsettled (Bool.eq_false_iff.mpr hw)] at hin
      cases hin
  · have hother : raw.trim ≠ ENTRY_HEADER := fun heq => hhead (heq ▸ rfl)
    simp only [hhead, if_false]
    split_ifs with hvalue
    · obtain ⟨hin, hp⟩ := Bool.and_eq_true_iff.mp hvalue
      obtain ⟨v, hv⟩ := List.isPrefixOf_iff_prefix.mp hp
      obtain ⟨ls, hout, hnl, hread⟩ := h.pushValue hin
      have hline := Reading.line_hidden (h.inEntry.trans hin) hv.symm
      refine ⟨⟨ls, hout, hnl, ?_⟩, ?_, fun hw => ?_, ?_⟩
      · rw [hsnoc, hline, Reading.withHidden_withHidden]
        exact hread
      · rw [hsnoc, hline]
        exact h.inEntry
      · cases hw
      · rw [exists_mem_concat, or_iff_left hother]
        exact iff_of_true (Or.inl rfl) (h.opened.mp (Or.inr hin))
    · obtain ⟨hwritten, hunset⟩ := h.copied hraw fun hp => hvalue (Bool.and_eq_true_iff.mpr hp)
      refine ⟨hwritten, ?_, hunset, ?_⟩
      · rw [hsnoc, Reading.inEntry_line _ hhead]
        exact h.inEntry
      · rw [exists_mem_concat, or_iff_left hother]
        exact h.opened

theorem edited_foldl (hidden : Bool) {raws : List Text} (h : ∀ raw ∈ raws, '\n' ∉ raw) :
    Edited hidden raws (raws.foldl (Edit.line hidden) {}) := by
  induction raws using List.reverseRecOn with
  | nil => exact Edited.start hidden
  | append_singleton raws raw ih =>
    rw [List.foldl_append]
    exact (ih fun r hr => h r (List.mem_append_left _ hr)).line (h raw (by simp))

/-- **An edited text says what it said, with the value it was edited to where it has the
section.** -/
theorem parseText_setHiddenText (hidden : Bool) (text : Text) :
    parseText (setHiddenText hidden text) =
      { parseText text with hidden := if HasEntry text then some hidden else none } := by
  obtain ⟨hedited, hsettled⟩ := (edited_foldl hidden fun raw => Text.newline_notMem_of_mem_lines
    (t := text)).close
  obtain ⟨ls, hout, hnl, hread⟩ := hedited.written
  have hwrote : ((text.lines.foldl (Edit.line hidden) {}).close hidden).wrote = true ↔
      HasEntry text := by
    refine (or_iff_left_of_imp fun hin => ?_).symm.trans hedited.opened
    by_contra hw
    rw [hsettled (Bool.eq_false_iff.mpr hw)] at hin
    cases hin
  rw [parseText, setHiddenText, hout, Reading.lines_unlines _ hnl, hread]
  simp only [hwrote]
  rfl

theorem hidden_eq_none_of_not_hasEntry {text : Text} (h : ¬ HasEntry text) :
    (parseText text).hidden = none := by
  have hedited := edited_foldl false fun raw => Text.newline_notMem_of_mem_lines (t := text)
  refine hedited.unset (Bool.eq_false_iff.mpr fun hw => h ?_)
  exact hedited.opened.mp (Or.inl hw)

/-! ### The text of an override -/

/-- The lines of an override. -/
def overrideLines (stem : Text) : List Text :=
  [ENTRY_HEADER, TYPE_LINE] ++ (NAME_KEY ++ stem).splitOn '\n' ++
    [hiddenLine true, TASKMAN_OVERRIDE_KEY]

theorem overrideText_eq_unlines (stem : Text) :
    overrideText stem = Text.unlines (overrideLines stem) := by
  have hname := Text.unlines_splitOn (NAME_KEY ++ stem)
  rw [overrideLines, Text.unlines, List.flatMap_append, List.flatMap_append, ← Text.unlines,
    ← Text.unlines, hname]
  simp [overrideText, Text.unlines]

theorem newline_notMem_overrideLines (stem : Text) : ∀ l ∈ overrideLines stem, '\n' ∉ l := by
  have hhead : ∀ l ∈ [ENTRY_HEADER, TYPE_LINE], '\n' ∉ l := by decide
  have htail : ∀ l ∈ [hiddenLine true, TASKMAN_OVERRIDE_KEY], '\n' ∉ l := by decide
  intro l hl
  rcases List.mem_append.mp hl with hl | hl
  · rcases List.mem_append.mp hl with hl | hl
    · exact hhead l hl
    · exact Text.notMem_of_mem_splitOn hl
  · exact htail l hl

/-- What the lines that name an override leave to read on. -/
def nameReading (stem : Text) : Reading :=
  Reading.lines { inEntry := true } ((NAME_KEY ++ stem).splitOn '\n')

/-- A name that does not end the section before the entry is hidden. -/
def Hideable (stem : Text) : Prop :=
  (nameReading stem).inEntry = true ∨ (nameReading stem).file.hidden = some true

instance (stem : Text) : Decidable (Hideable stem) := instDecidableOr

theorem Reading.line_overrideKey (r : Reading) : r.line TASKMAN_OVERRIDE_KEY = r := by
  have htrim : TASKMAN_OVERRIDE_KEY.trim = TASKMAN_OVERRIDE_KEY := by decide +kernel
  have hhead : TASKMAN_OVERRIDE_KEY.head? = some 'X' := rfl
  have hname : TASKMAN_OVERRIDE_KEY.stripPrefix NAME_KEY = none := rfl
  have hexec : TASKMAN_OVERRIDE_KEY.stripPrefix EXEC_KEY = none := rfl
  have hhidden : TASKMAN_OVERRIDE_KEY.stripPrefix HIDDEN_KEY = none := rfl
  simp [Reading.line, htrim, hhead, hname, hexec, hhidden]

theorem Reading.line_hiddenLine_of_closed {r : Reading} (hr : r.inEntry = false) (hidden : Bool) :
    r.line (hiddenLine hidden) = r := by
  simp [Reading.line, head?_trim_hiddenLine, hr]

/-- **An override hides the entry exactly when the name lets it.** -/
theorem hidden_overrideText_iff (stem : Text) :
    (parseText (overrideText stem)).hidden = some true ↔ Hideable stem := by
  have hread : Reading.lines {} (overrideText stem).lines =
      (nameReading stem).line (hiddenLine true) := by
    rw [overrideText_eq_unlines, Reading.lines_unlines _ (newline_notMem_overrideLines stem),
      overrideLines, Reading.lines_append, Reading.lines_append]
    have hopen : Reading.lines {} [ENTRY_HEADER, TYPE_LINE] = { inEntry := true } := by
      decide +kernel
    rw [hopen]
    exact Reading.line_overrideKey _
  rw [parseText, hread, Hideable]
  cases hin : (nameReading stem).inEntry with
  | true =>
    rw [Reading.line_hiddenLine hin]
    simp
  | false =>
    rw [Reading.line_hiddenLine_of_closed hin]
    simp

theorem isTaskmanOverride_overrideText (stem : Text) :
    isTaskmanOverride (overrideText stem) = true := by
  rw [isTaskmanOverride, overrideText_eq_unlines,
    Text.lines_unlines (newline_notMem_overrideLines stem), List.any_map, List.any_eq_true]
  refine ⟨TASKMAN_OVERRIDE_KEY, by simp [overrideLines], ?_⟩
  decide +kernel

end Autostart

end Taskman
