import Taskman.Core.Ini
import Taskman.Core.Model
import Taskman.Numeric.F32
import Mathlib.Algebra.Order.Ring.Star
import Mathlib.Algebra.Order.Star.Basic

/-!
# User settings

The settings of the application, how they are read from the text of `config.ini` and the text they
are saved as.  Reading ignores unknown keys and invalid values, clamps and migrates; saving escapes
keys and values and prints widths with one digit after the point.

JSON of a process rule and the Unicode class of alphanumeric characters are parameters
(`SettingsCrates`).  The two zeros of `f32` are one number here; neither is ever a setting.
-/

namespace Taskman

/-! ### Choices -/

/-- The themes. -/
inductive ThemeMode where
  | system
  | light
  | dark
  deriving DecidableEq, Repr

/-- How often samples are taken. -/
inductive UpdateSpeed where
  | high
  | normal
  | low
  | paused
  deriving DecidableEq, Repr

/-- Glyph anti-aliasing weight. -/
inductive TextSmoothing where
  | sharp
  | standard
  | smooth
  deriving DecidableEq, Repr

/-- Which rendering path the GUI starts on. -/
inductive RenderMode where
  | auto
  | compatibility
  | software
  deriving DecidableEq, Repr

/-- The languages that can be chosen. -/
inductive LangChoice where
  | system
  | de
  | en
  deriving DecidableEq, Repr

/-- The value that a text, whatever its case, names. -/
def ofName {α : Type*} (names : List (String × α)) (s : Text) : Option α :=
  (names.find? fun p => p.1.toList = s.toAsciiLowercase).map Prod.snd

/-- The value of a word. -/
def parseBool : Text → Option Bool :=
  ofName [("1", true), ("true", true), ("yes", true), ("on", true), ("0", false),
    ("false", false), ("no", false), ("off", false)]

/-- `bool::to_string`. -/
def boolText (b : Bool) : Text := if b then "true".toList else "false".toList

/-- A theme as it is written. -/
def ThemeMode.asCfg : ThemeMode → Text
  | .system => "system".toList
  | .light => "light".toList
  | .dark => "dark".toList

/-- A theme as it is read. -/
def ThemeMode.fromCfg : Text → Option ThemeMode :=
  ofName [("system", .system), ("light", .light), ("hell", .light), ("dark", .dark),
    ("dunkel", .dark)]

/-- An update speed as it is written. -/
def UpdateSpeed.asCfg : UpdateSpeed → Text
  | .high => "high".toList
  | .normal => "normal".toList
  | .low => "low".toList
  | .paused => "paused".toList

/-- An update speed as it is read. -/
def UpdateSpeed.fromCfg : Text → Option UpdateSpeed :=
  ofName [("high", .high), ("normal", .normal), ("low", .low), ("paused", .paused)]

/-- A smoothing as it is written. -/
def TextSmoothing.asCfg : TextSmoothing → Text
  | .sharp => "sharp".toList
  | .standard => "standard".toList
  | .smooth => "smooth".toList

/-- A smoothing as it is read. -/
def TextSmoothing.fromCfg : Text → Option TextSmoothing :=
  ofName [("sharp", .sharp), ("scharf", .sharp), ("standard", .standard), ("normal", .standard),
    ("smooth", .smooth), ("weich", .smooth)]

/-- A renderer as it is written. -/
def RenderMode.asCfg : RenderMode → Text
  | .auto => "auto".toList
  | .compatibility => "compatibility".toList
  | .software => "software".toList

/-- A renderer as it is read; the words of older versions are known. -/
def RenderMode.fromCfg : Text → Option RenderMode :=
  ofName [("auto", .auto), ("automatic", .auto), ("automatisch", .auto), ("gpu", .auto),
    ("true", .auto), ("on", .auto), ("compatibility", .compatibility),
    ("kompatibilitaet", .compatibility), ("opengl", .compatibility), ("gl", .compatibility),
    ("software", .software), ("cpu", .software), ("warp", .software), ("false", .software),
    ("off", .software)]

/-- A language as it is written. -/
def LangChoice.asCfg : LangChoice → Text
  | .system => "system".toList
  | .de => "de".toList
  | .en => "en".toList

/-- A language as it is read. -/
def LangChoice.fromCfg : Text → Option LangChoice :=
  ofName [("system", .system), ("", .system), ("de", .de), ("german", .de), ("en", .en),
    ("english", .en)]

/-! ### The settings -/

/-- Persisted sort for one table. -/
structure SortPreference where
  column : Text
  ascending : Bool
  deriving DecidableEq

/-- Policy applied whenever an executable starts. -/
structure ProcessRule where
  priority : Option PriorityClass := none
  affinityMask : Option UInt64 := none
  deriving DecidableEq

/-- A rule that asks for nothing. -/
def ProcessRule.isEmpty (r : ProcessRule) : Bool := r.priority.isNone && r.affinityMask.isNone

/-- `table id -> column id -> value`. -/
abbrev PerColumn (α : Type) := OrdMap Text (OrdMap Text α)

/-- The settings, with their defaults. -/
@[ext]
structure Settings where
  saveConfig : Bool := true
  theme : ThemeMode := .system
  updateSpeed : UpdateSpeed := .normal
  alwaysOnTop : Bool := false
  /-- Length of the visible graph window in seconds. -/
  graphSeconds : ℕ := 60
  uiZoom : F32 := F32.ofNat 1 (by norm_num)
  rememberWindow : Bool := true
  windowSize : F32 × F32 := (F32.ofNat 1100 (by norm_num), F32.ofNat 720 (by norm_num))
  defaultStartPage : Text := "processes".toList
  sidebarCollapsed : Bool := false
  language : LangChoice := .system
  /-- User-resized column widths. -/
  colWidths : PerColumn F32 := ∅
  /-- Column visibility overrides. -/
  colVisible : PerColumn Bool := ∅
  /-- User-defined column display order per table. -/
  colOrder : OrdMap Text (List Text) := ∅
  /-- Sort choice per table. -/
  tableSort : OrdMap Text SortPreference := ∅
  /-- Scheduling policies keyed by normalized executable image path. -/
  processRules : OrdMap Text ProcessRule := ∅
  perfCardWidth : F32 := F32.ofNat 252 (by norm_num)
  cpuGraphMode : Text := "overall".toList
  gpuGraphMode : Text := "overall".toList
  showKernelTimes : Bool := false
  wifiDetails : Bool := false
  perfSelectedKey : Text := "cpu".toList
  detailsTreeHierarchical : Bool := false
  closeToTray : Bool := false
  startWithWindows : Bool := false
  startElevated : Bool := false
  textSmoothing : TextSmoothing := .sharp
  renderMode : RenderMode := .auto

/-- What the settings code takes from elsewhere. -/
structure SettingsCrates where
  /-- `serde_json::to_string` of a path and its rule. -/
  ruleToString : Text × ProcessRule → Text
  /-- `serde_json::from_str` to a path and its rule. -/
  ruleFromStr : Text → Option (Text × ProcessRule)
  /-- `char::is_alphanumeric`. -/
  isAlphanumeric : Char → Bool

variable (crates : SettingsCrates)

/-! ### Values as text -/

/-- Widths as compact decimal text. -/
def fmtWidth (w : F32) : Text :=
  let s := w.fixed 1
  (Text.stripSuffix s ".0".toList).getD s

/-- A size as it is written. -/
def writeWindowSize (sz : F32 × F32) : Text := sz.1.display ++ 'x' :: sz.2.display

/-- A size as it is read. -/
def parseWindowSize (s : Text) : Option (F32 × F32) := do
  let (w, h) ← Text.splitOnce (fun c => c == 'x' || c == 'X') s
  let w ← F32.parse w.trim
  let h ← F32.parse h.trim
  some (w, h)

/-- One bad entry invalidates the whole line. -/
def parseWidths (s : Text) : Option (List F32) :=
  (s.splitOn ',').mapM fun part => (F32.parse (Text.trim part)).filter fun w => 0 < w.val

/-- Historical hard-coded column order per table. -/
def legacyColumnOrder : List (String × List String) :=
  [("processes", ["name", "status", "cpu", "mem", "disk", "net"]),
    ("details",
      ["name", "pid", "status", "user", "cpu", "mem", "platform", "elevated", "uac", "gpu"]),
    ("users", ["user", "status", "cpu", "mem", "disk", "net"]),
    ("startup", ["name", "pub", "status", "impact"]),
    ("services", ["name", "pid", "desc", "status", "group"]),
    ("apphistory", ["name", "cpu", "net", "notif"])]

/-- The widths a column may have. -/
def widthInRange (w : F32) : Bool := 40 ≤ w.val && w.val ≤ 1200

/-- One table's positional width list as `(column id, width)` pairs. -/
def migratePositionalWidths (table : Text) (widths : List F32) : List (Text × F32) :=
  match legacyColumnOrder.find? fun p => p.1.toList = table with
  | some (_, order) =>
    ((order.map String.toList).zip widths).filter fun p => widthInRange p.2
  | none => []

/-! ### Loading -/

namespace Settings

/-- The value of a key in the general section. -/
def general (kv : Ini) (key : String) : Option Text := kv[("general".toList, key.toList)]?

/-- A boolean of the general section. -/
def flag (kv : Ini) (key : String) (dflt : Bool) : Bool :=
  ((general kv key).bind parseBool).getD dflt

/-- The pages the program can start with. -/
def startPages : List String :=
  ["processes", "performance", "apphistory", "startup", "users", "details", "services"]

/-- `f32::clamp` of both sides of a window. -/
def clampWindow (sz : F32 × F32) : F32 × F32 :=
  (sz.1.clamp (F32.ofNat 200 (by norm_num)) (F32.ofNat 16384 (by norm_num)),
    sz.2.clamp (F32.ofNat 150 (by norm_num)) (F32.ofNat 16384 (by norm_num)))

/-- A start page as it is read. -/
def startPageOf (v : Text) : Option Text :=
  let page := v.trim.toAsciiLowercase
  if startPages.any (·.toList = page) then some page else none

/-- A graph mode as it is read. -/
def cpuGraphModeOf (v : Text) : Option Text :=
  let mode := v.trim.toAsciiLowercase
  if mode = "overall".toList ∨ mode = "logical".toList then some mode else none

/-- Engine names: bounded length, no structure. -/
def gpuGraphModeOf (v : Text) : Option Text :=
  let mode := v.trim
  if mode ≠ [] ∧ Text.utf8Len mode ≤ 32 ∧
      mode.all fun c => crates.isAlphanumeric c || c == '_' || c == ' ' then some mode
  else none

/-- The key of a selected resource as it is read, unless it is too long. -/
def perfSelectedKeyOf (v : Text) : Option Text :=
  let key := v.trim
  if key ≠ [] ∧ Text.utf8Len key ≤ 64 then some key else none

/-- The fields of the general section. -/
def loadGeneral (kv : Ini) : Settings :=
  let s : Settings := {}
  { saveConfig := flag kv "save_config" s.saveConfig
    theme := ((general kv "theme").bind ThemeMode.fromCfg).getD s.theme
    updateSpeed := ((general kv "update_speed").bind UpdateSpeed.fromCfg).getD s.updateSpeed
    alwaysOnTop := flag kv "always_on_top" s.alwaysOnTop
    graphSeconds := (((general kv "graph_seconds").bind (Text.parseNat (2 ^ 32))).map
      fun v => min (max v 10) 600).getD s.graphSeconds
    uiZoom := (((general kv "ui_zoom").bind F32.parse).filter
      fun v => 1 / 2 ≤ v.val && v.val ≤ 3).getD s.uiZoom
    rememberWindow := flag kv "remember_window" s.rememberWindow
    startElevated := flag kv "start_elevated" s.startElevated
    windowSize := (((general kv "window_size").bind parseWindowSize).map clampWindow).getD
      s.windowSize
    defaultStartPage := ((general kv "default_start_page").bind startPageOf).getD
      s.defaultStartPage
    sidebarCollapsed := flag kv "sidebar_collapsed" s.sidebarCollapsed
    language := ((general kv "language").bind LangChoice.fromCfg).getD s.language
    perfCardWidth := (((general kv "perf_card_width").bind F32.parse).filter
      fun v => 100 ≤ v.val && v.val ≤ 2000).getD s.perfCardWidth
    cpuGraphMode := ((general kv "cpu_graph_mode").bind cpuGraphModeOf).getD s.cpuGraphMode
    gpuGraphMode := ((general kv "gpu_graph_mode").bind (gpuGraphModeOf crates)).getD
      s.gpuGraphMode
    showKernelTimes := flag kv "show_kernel_times" s.showKernelTimes
    wifiDetails := flag kv "wifi_details" s.wifiDetails
    perfSelectedKey := ((general kv "perf_selected_key").bind perfSelectedKeyOf).getD
      s.perfSelectedKey
    -- the tree preference of older builds lives on in the third sort state
    detailsTreeHierarchical :=
      (((general kv "details_tree_hierarchical").bind parseBool).or
        (((general kv "details_tree_view").bind parseBool).or
          ((general kv "process_tree_view").bind parseBool))).getD s.detailsTreeHierarchical
    closeToTray := flag kv "close_to_tray" s.closeToTray
    startWithWindows := flag kv "start_with_windows" s.startWithWindows
    textSmoothing := ((general kv "text_smoothing").bind TextSmoothing.fromCfg).getD
      s.textSmoothing
    renderMode := (((general kv "render_mode").bind RenderMode.fromCfg).or
      ((general kv "gpu_acceleration").bind RenderMode.fromCfg)).getD s.renderMode }

/-- What an entry outside the general section says. -/
inductive Preference where
  | sort (table : Text) (preference : SortPreference)
  | rule (path : Text) (rule : ProcessRule)
  | visible (table col : Text) (on : Bool)
  | order (table : Text) (ids : List Text)
  | width (table col : Text) (w : F32)

/-- A sort preference as it is read. -/
def readSort (table value : Text) : Option Preference :=
  match Text.rsplitOnce (· == ',') value with
  | none => none
  | some (column, ascending) =>
    if column.trim ≠ [] then
      (parseBool ascending.trim).map fun ascending =>
        .sort table { column := column.trim, ascending }
    else none

/-- A process rule as it is read, unless it asks for nothing. -/
def readRule (value : Text) : Option Preference :=
  match crates.ruleFromStr value with
  | some (path, rule) =>
    if path.trim ≠ [] ∧ rule.isEmpty = false then some (.rule path rule) else none
  | none => none

/-- An order of columns as it is read. -/
def readOrder (table key value : Text) : Option Preference :=
  if key = "order".toList then
    let ids := ((value.splitOn ',').map Text.trim).filter (· ≠ [])
    if ids ≠ [] then some (.order table ids) else none
  else none

/-- The width of a column as it is read, if it is in range. -/
def readWidth (table key value : Text) : Option Preference :=
  if table ≠ "columns".toList then
    ((F32.parse value).filter widthInRange).map fun w => .width table key w
  else none

/-- The preferences keyed by column: `rest` is what follows `columns.` in the section. -/
def readColumn (rest key value : Text) : Option Preference :=
  match Text.rsplitOnce (· == '.') rest with
  | some (table, suffix) =>
    if suffix = "visible".toList then (parseBool value).map fun on => .visible table key on
    else if suffix = "order".toList then readOrder table key value
    else readWidth rest key value
  | none => readWidth rest key value

/-- What an entry of the file says, unless it is one of the old positional widths. -/
def readPreference (e : (Text × Text) × Text) : Option Preference :=
  let ((sec, key), value) := e
  if sec = "columns".toList then none
  else if sec = "sort".toList then readSort key value
  else if sec = "process-rules".toList ∧ "rule.".toList <+: key then readRule crates value
  else (Text.stripPrefix sec "columns.".toList).bind fun rest => readColumn rest key value

/-- `map.entry(table).or_default().insert(col, v)`. -/
def insertColumn {α : Type} (m : PerColumn α) (table col : Text) (v : α) : PerColumn α :=
  m.alter table fun cols => some ((cols.getD ∅).insert col v)

/-- A preference put into the settings. -/
def addPreference (s : Settings) : Preference → Settings
  | .sort table preference => { s with tableSort := s.tableSort.insert table preference }
  | .rule path rule => { s with processRules := s.processRules.insert path rule }
  | .visible table col on => { s with colVisible := insertColumn s.colVisible table col on }
  | .order table ids => { s with colOrder := s.colOrder.insert table ids }
  | .width table col w => { s with colWidths := insertColumn s.colWidths table col w }

/-- The widths that an entry of the positional schema gives to the columns of its table. -/
def legacyWidths (e : (Text × Text) × Text) : List (Text × F32) :=
  if e.1.1 = "columns".toList then
    match parseWidths e.2 with
    | some widths => migratePositionalWidths e.1.2 widths
    | none => []
  else []

/-- One-time migration of an entry: widths that are there already are kept. -/
def migrate (m : PerColumn F32) (e : (Text × Text) × Text) : PerColumn F32 :=
  if legacyWidths e = [] then m
  else
    m.alter e.1.2 fun cols =>
      some ((legacyWidths e).foldl (fun cols p => cols.insertIfNew p.1 p.2) (cols.getD ∅))

/-- Build settings from INI text. -/
def fromIniText (text : Text) : Settings :=
  let kv := parseIni text
  let s := (kv.toList.filterMap (readPreference crates)).foldl addPreference
    (loadGeneral crates kv)
  let s := { s with colWidths := kv.toList.foldl migrate s.colWidths }
  -- geometry is neither restored nor persisted
  if s.rememberWindow = false then { s with windowSize := ({} : Settings).windowSize } else s

/-! ### Saving -/

/-- One line of the file. -/
def line (t : Text) : Text := t ++ ['\n']

/-- The keys of the general section and their values. -/
def generalValues (s : Settings) : List (String × Text) :=
  [("save_config", boolText s.saveConfig),
    ("language", s.language.asCfg),
    ("theme", s.theme.asCfg),
    ("update_speed", s.updateSpeed.asCfg),
    ("always_on_top", boolText s.alwaysOnTop),
    ("graph_seconds", Text.digits s.graphSeconds),
    ("ui_zoom", s.uiZoom.display),
    ("remember_window", boolText s.rememberWindow),
    ("window_size", writeWindowSize s.windowSize),
    ("default_start_page", s.defaultStartPage),
    ("sidebar_collapsed", boolText s.sidebarCollapsed),
    ("perf_card_width", s.perfCardWidth.display),
    ("cpu_graph_mode", s.cpuGraphMode),
    ("gpu_graph_mode", s.gpuGraphMode),
    ("show_kernel_times", boolText s.showKernelTimes),
    ("wifi_details", boolText s.wifiDetails),
    ("perf_selected_key", s.perfSelectedKey),
    ("details_tree_hierarchical", boolText s.detailsTreeHierarchical),
    ("close_to_tray", boolText s.closeToTray),
    ("start_with_windows", boolText s.startWithWindows),
    ("start_elevated", boolText s.startElevated),
    ("text_smoothing", s.textSmoothing.asCfg),
    ("render_mode", s.renderMode.asCfg)]

/-- The general section. -/
def renderGeneral (s : Settings) : Text :=
  line "[general]".toList ++
    s.generalValues.flatMap fun p => line (p.1.toList ++ '=' :: escapeIni p.2)

/-- The sections of the widths. -/
def renderWidths (columns : PerColumn F32) : Text :=
  columns.toList.flatMap fun (table, cols) =>
    if cols.isEmpty then []
    else
      line [] ++ line ("[columns.".toList ++ table ++ "]".toList) ++
        line "# column id = width px".toList ++
        cols.toList.flatMap fun (col, w) => line (escapeIni col ++ '=' :: fmtWidth w)

/-- The sections of the columns that are shown or hidden. -/
def renderVisible (visible : PerColumn Bool) : Text :=
  visible.toList.flatMap fun (table, cols) =>
    if cols.isEmpty then []
    else
      line [] ++ line ("[columns.".toList ++ table ++ ".visible]".toList) ++
        line "# column id = 0 (hidden) | 1 (shown)".toList ++
        cols.toList.flatMap fun (col, on) =>
          line (escapeIni col ++ '=' :: (if on then "1".toList else "0".toList))

/-- The sections of the orders. -/
def renderOrder (order : OrdMap Text (List Text)) : Text :=
  order.toList.flatMap fun (table, ids) =>
    if ids = [] then []
    else
      line [] ++ line ("[columns.".toList ++ table ++ ".order]".toList) ++
        line ("order=".toList ++ escapeIni ([','].intercalate ids))

/-- The section of the sort preferences. -/
def renderSort (sort : OrdMap Text SortPreference) : Text :=
  if sort.isEmpty then []
  else
    line [] ++ line "[sort]".toList ++ line "# table = stable column id, ascending".toList ++
      sort.toList.flatMap fun (table, preference) =>
        line (escapeIni table ++ '=' ::
          (escapeIni preference.column ++ ',' :: boolText preference.ascending))

/-- The section of the process rules. -/
def renderRules (processRules : OrdMap Text ProcessRule) : Text :=
  let rules := processRules.toList.filter fun p => p.2.isEmpty = false
  if rules = [] then []
  else
    line [] ++ line "[process-rules]".toList ++
      line "# rule.N = JSON [normalized image path, scheduling policy]".toList ++
      rules.zipIdx.flatMap fun (rule, index) =>
        line ("rule.".toList ++ Text.digits index ++ '=' :: escapeIni (crates.ruleToString rule))

/-- The whole file. -/
def renderIni (body : Text) (s : Settings) : Text :=
  line "# taskman configuration — edited values apply on the next start.".toList ++
    line "# Delete this file to reset all settings to their defaults.".toList ++ line [] ++ body ++
    renderWidths s.colWidths ++ renderVisible s.colVisible ++ renderOrder s.colOrder ++
    renderSort s.tableSort ++ renderRules crates s.processRules

/-- The text that settings are saved as. -/
def saveText (s : Settings) : Text := renderIni crates s.renderGeneral s

end Settings

end Taskman
