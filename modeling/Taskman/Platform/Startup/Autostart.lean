import Taskman.Platform.Startup.Directories
import Taskman.Platform.Startup.Item

/-!
# Autostart entries on Linux

Desktop files in directories of increasing precedence, the user's own the highest.  Files of one
name are one item: what a file says replaces what the files below it said, key by key.  The toggle
never writes to a system directory; it shadows an entry with a file of its own, which it marks so
that it may remove it again.

* `Autostart.listAutostart` : the list;
* `Autostart.setEnabled` : the toggle;
* `Autostart.getElem?_merged` : **an item is its files laid over each other**;
* `Autostart.hidden_stack` : **the highest file with a value for `Hidden` decides**.
-/

namespace Taskman

namespace Autostart

/-! ### The directories -/

/-- The environment variables, where they are set to text. -/
structure Env where
  xdgConfigHome : Option Text := none
  home : Option Text := none
  xdgConfigDirs : Option Text := none

/-- `PathBuf::join` of a name that is not absolute. -/
def joinPath (base name : Text) : Text :=
  if base = [] ∨ base.getLast? = some '/' then base ++ name else base ++ '/' :: name

/-- The directory of the settings in the home directory. -/
def CONFIG_DIR : Text := ".config".toList

/-- The directories of the system settings, where none are named. -/
def DEFAULT_CONFIG_DIRS : Text := "/etc/xdg".toList

/-- The directory of the entries in each of them. -/
def AUTOSTART_DIR : Text := "autostart".toList

/-- The directory of the settings of the user. -/
def configHome (env : Env) : Option Text :=
  match env.xdgConfigHome.filter (· ≠ []) with
  | some s => some s
  | none => env.home.map (joinPath · CONFIG_DIR)

/-- The directory of the user's own entries. -/
def userDir (env : Env) : Option Text := (configHome env).map (joinPath · AUTOSTART_DIR)

/-- The other directories, from high to low precedence. -/
def systemDirs (env : Env) : List Text :=
  ((((env.xdgConfigDirs.filter (· ≠ [])).getD DEFAULT_CONFIG_DIRS).splitOn ':').filter
    (· ≠ [])).map (joinPath · AUTOSTART_DIR)

/-- All directories, from low to high precedence. -/
def autostartDirsLowToHigh (env : Env) : List Text :=
  (systemDirs env).reverse ++ (userDir env).toList

/-! ### The list -/

/-- How the names of the files end. -/
def DESKTOP_SUFFIX : Text := ".desktop".toList

/-- What the id of an item begins with. -/
def XDG_PREFIX : Text := "xdg:".toList

/-- A name ends as those of the files do. -/
def isDesktopName (name : Text) : Bool := DESKTOP_SUFFIX.isSuffixOf name

/-- What a file says, over what the files below it said. -/
def DesktopFile.over (parsed : DesktopFile) (slot : Option DesktopFile) : DesktopFile :=
  let slot := slot.getD {}
  { name := parsed.name.or slot.name
    exec := parsed.exec.or slot.exec
    hidden := parsed.hidden.or slot.hidden
    source := parsed.source }

/-- The files of one directory laid over those below it.  The files of a directory have different
names, so that the order they are enumerated in does not matter. -/
def mergeDir (disk : Disk) (merged : OrdMap FileName DesktopFile) (dir : Text) :
    OrdMap FileName DesktopFile :=
  match disk.dirs (disk.real dir) with
  | none => merged
  | some files =>
    files.foldl (fun merged name _ =>
      merged.alter name fun slot =>
        if isDesktopName name.val then
          let text := (disk.lookup (disk.place dir name)).join
          some ((parseDesktop (joinPath dir name.val) text).over slot)
        else slot) merged

/-- The files of all directories laid over each other. -/
def merged (env : Env) (disk : Disk) : OrdMap FileName DesktopFile :=
  (autostartDirsLowToHigh env).foldl (mergeDir disk) ∅

/-- The id of the item that the files of a name are. -/
def fileId (name : FileName) : Text := XDG_PREFIX ++ name.val

/-- The item of a name, from what its files say. -/
def newItem (name : FileName) (parsed : DesktopFile) : StartupItem :=
  let enabled := parsed.hidden ≠ some true
  { id := fileId name
    name := parsed.name.getD (Text.trimEndMatches DESKTOP_SUFFIX name.val)
    command := parsed.exec.getD parsed.source
    location := "autostart (".toList ++ parsed.source ++ ")".toList
    publisher := none
    enabled := enabled
    impact := unmeasuredImpact enabled }

/-- `items.sort_by_key(|a| a.name.to_lowercase())`. -/
def nameOrder (toLowercase : Text → Text) (a b : StartupItem) : Ordering :=
  compare (toLowercase a.name) (toLowercase b.name)

/-- The items, in the order of their names. -/
def listAutostart (toLowercase : Text → Text) (env : Env) (disk : Disk) : List StartupItem :=
  sortBy (nameOrder toLowercase) ((merged env disk).toList.map fun e => newItem e.1 e.2)

/-! ### The toggle -/

/-- Which calls of a toggle fail, with what message; a write that fails may leave a part. -/
structure Faults where
  createDir : Option Text := none
  remove : Option Text := none
  write : Option (Text × Option Text) := none

/-- `std::fs::write`, which fails by itself where the place leads nowhere. -/
def writeFile (faults : Faults) (disk : Disk) (context : Text) (p : Place) (text : Text) :
    Except TmError Unit × Disk :=
  match faults.write with
  | none =>
    match disk.write p text with
    | some disk' => (.ok (), disk')
    | none => (.error (.platform context "no such file or directory".toList), disk)
  | some (e, part) => (.error (.platform context e), (part.bind (disk.write p)).getD disk)

/-- The context of an error before any file is touched. -/
def STARTUP_CONTEXT : Text := "startup".toList

/-- The context of an entry that cannot be read. -/
def READ_CONTEXT : Text := "read autostart entry".toList

/-- The context of an entry that cannot be written. -/
def WRITE_ENTRY_CONTEXT : Text := "write autostart entry".toList

/-- The context of an override that cannot be written. -/
def WRITE_OVERRIDE_CONTEXT : Text := "write autostart override".toList

/-- `set_hidden_in_file`, on a file whose text is absent where it cannot be read. -/
def setHiddenInFile (faults : Faults) (disk : Disk) (p : Place) (text : Option Text)
    (hidden : Bool) : Except TmError Unit × Disk :=
  match text with
  | none => (.error (.platform READ_CONTEXT "unreadable".toList), disk)
  | some text => writeFile faults disk WRITE_ENTRY_CONTEXT p (setHiddenText hidden text)

/-- `remove_file`. -/
def removeFile (faults : Faults) (disk : Disk) (p : Place) : Except TmError Unit × Disk :=
  match faults.remove with
  | none => (.ok (), disk.remove p)
  | some e => (.error (.platform "remove autostart override".toList e), disk)

/-- `set_enabled` of a file, once the user's directory exists.  The file that exists, is read and
is written is the one that the links lead to; the one that is removed is the entry. -/
def toggleFile (faults : Faults) (disk : Disk) (p : Place) (enabled : Bool) :
    Except TmError Unit × Disk :=
  match disk.lookup p with
  | some text =>
    if enabled && text.any isTaskmanOverride then
      -- only an override is removed: a file of the user's keeps its other lines
      removeFile faults disk p
    else setHiddenInFile faults disk p text (!enabled)
  | none =>
    if !enabled then
      writeFile faults disk WRITE_OVERRIDE_CONTEXT p
        (overrideText (Text.trimEndMatches DESKTOP_SUFFIX p.2.val))
    else (.ok (), disk)

/-- The toggle of an item. -/
def setEnabled (env : Env) (faults : Faults) (disk : Disk) (itemId : Text) (enabled : Bool) :
    Except TmError Unit × Disk :=
  match itemId.stripPrefix XDG_PREFIX with
  | none => (.error (.platform STARTUP_CONTEXT "unknown item".toList), disk)
  | some fileName =>
    if h : fileName ≠ [] ∧ '/' ∉ fileName ∧ isDesktopName fileName then
      match userDir env with
      | none => (.error (.platform STARTUP_CONTEXT "no XDG config home".toList), disk)
      | some dir =>
        match faults.createDir with
        | some e => (.error (.platform "create autostart dir".toList e), disk)
        | none =>
          toggleFile faults (disk.make dir) (disk.place dir ⟨fileName, h.1, h.2.1⟩) enabled
    else (.error (.platform STARTUP_CONTEXT "invalid desktop-file id".toList), disk)

/-! ### The files of a name -/

/-- What the files of a name say, from low to high precedence. -/
def layers (disk : Disk) (dirs : List Text) (name : FileName) : List DesktopFile :=
  dirs.filterMap fun dir => (disk.file dir name).map (parseDesktop (joinPath dir name.val))

@[simp]
theorem layers_append (disk : Disk) (dirs dirs' : List Text) (name : FileName) :
    layers disk (dirs ++ dirs') name = layers disk dirs name ++ layers disk dirs' name :=
  List.filterMap_append

/-- Files laid over each other. -/
def stack (files : List DesktopFile) : Option DesktopFile :=
  files.foldl (fun slot file => some (file.over slot)) none

@[simp]
theorem stack_concat (files : List DesktopFile) (file : DesktopFile) :
    stack (files ++ [file]) = some (file.over (stack files)) := by
  rw [stack, List.foldl_concat]
  rfl

theorem stack_eq_none_iff {files : List DesktopFile} : stack files = none ↔ files = [] := by
  induction files using List.reverseRecOn with
  | nil => exact iff_of_true rfl rfl
  | append_singleton files file _ => simp

/-- What the highest of some files with a value for `Hidden` says. -/
def hiddenOf (files : List DesktopFile) : Option Bool :=
  (files.filterMap DesktopFile.hidden).getLast?

theorem hiddenOf_concat (files : List DesktopFile) (file : DesktopFile) :
    hiddenOf (files ++ [file]) = file.hidden.or (hiddenOf files) := by
  rw [hiddenOf, List.filterMap_append]
  cases h : file.hidden <;> simp [h, hiddenOf]

/-- **The highest file with a value for `Hidden` decides.** -/
theorem hidden_stack {files : List DesktopFile} {file : DesktopFile} (h : stack files = some file) :
    file.hidden = hiddenOf files := by
  induction files using List.reverseRecOn generalizing file with
  | nil => cases h
  | append_singleton files top ih =>
    rw [stack_concat] at h
    obtain rfl := Option.some.inj h
    rw [hiddenOf_concat, DesktopFile.over]
    cases hbelow : stack files with
    | none =>
      rw [stack_eq_none_iff.mp hbelow]
      rfl
    | some below => rw [Option.getD_some, ih hbelow]

theorem getElem?_mergeDir (disk : Disk) (merged : OrdMap FileName DesktopFile) (dir : Text)
    (name : FileName) :
    (mergeDir disk merged dir)[name]? =
      if isDesktopName name.val then
        ((disk.file dir name).map (parseDesktop (joinPath dir name.val))).elim merged[name]?
          fun file => some (file.over merged[name]?)
      else merged[name]? := by
  unfold mergeDir Disk.file Disk.entry
  cases hdir : disk.dirs (disk.real dir) with
  | none => simp [Disk.place, hdir]
  | some files =>
    rw [OrdMap.getElem?_foldl_alter fun (name : FileName) _ slot =>
      if isDesktopName name.val then
        some ((parseDesktop (joinPath dir name.val)
          (disk.lookup (disk.place dir name)).join).over slot)
      else slot]
    cases hentry : files[name]? <;> simp [Disk.place, hdir, hentry]

/-- **An item is its files laid over each other.** -/
theorem getElem?_merged (env : Env) (disk : Disk) (name : FileName) :
    (merged env disk)[name]? =
      if isDesktopName name.val then stack (layers disk (autostartDirsLowToHigh env) name)
      else none := by
  unfold merged
  induction autostartDirsLowToHigh env using List.reverseRecOn with
  | nil => simp [layers, stack]
  | append_singleton dirs dir ih =>
    rw [List.foldl_concat, getElem?_mergeDir, ih, layers_append]
    cases hfile : disk.file dir name <;> split_ifs <;> simp [layers, hfile]

end Autostart

end Taskman
