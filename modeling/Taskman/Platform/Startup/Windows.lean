import Taskman.Binary.Bytes
import Taskman.Collections.SortBy
import Taskman.Core.Model
import Taskman.Platform.Startup.Item
import Taskman.Platform.Startup.Registry
import Taskman.Text.Scan

/-!
# Startup items on Windows

The values of three Run keys and the files of two startup folders.  Whether an item is enabled is
kept beside them, in an approval key for each: an entry under the item's name whose first byte is
odd disables it, a missing entry does not.

* `WinStartup.listStartup` : the list;
* `WinStartup.target` : where the approval of an item is kept, read off its id;
* `WinStartup.setStartupEnabled` : the toggle.
-/

namespace Taskman

namespace WinStartup

/-! ### The registry -/

/-- The hive of the user, or that of the machine. -/
inductive Hive where
  | hkcu
  | hklm
  deriving DecidableEq

/-- The registry: the keys that exist. -/
abbrev Registry (fold : RegName → RegName) := Hive → Text → Option (RegKey fold)

variable {fold : RegName → RegName}

/-- A key made or written. -/
def Registry.put (reg : Registry fold) (hive : Hive) (path : Text) (key : RegKey fold) :
    Registry fold :=
  fun h p => if h = hive ∧ p = path then some key else reg h p

/-- The key of the commands. -/
def RUN_KEY : Text := "Software\\Microsoft\\Windows\\CurrentVersion\\Run".toList

/-- The key above those that say what is switched off. -/
def APPROVED_KEY : Text :=
  "Software\\Microsoft\\Windows\\CurrentVersion\\Explorer\\StartupApproved".toList

/-- A key below the approvals. -/
def approvedPath (sub : Text) : Text := APPROVED_KEY ++ '\\' :: sub

/-- A key with commands, and where it is said which are switched off. -/
structure RunLocation where
  hive : Hive
  subkey : Text
  approvedSubkey : Text
  label : Text
  deriving DecidableEq

/-- The keys with commands, in the order they are listed. -/
def LOCATIONS : List RunLocation :=
  [{ hive := .hkcu
     subkey := RUN_KEY
     approvedSubkey := "Run".toList
     label := "HKCU\\Software\\Microsoft\\Windows\\CurrentVersion\\Run".toList },
   { hive := .hklm
     subkey := RUN_KEY
     approvedSubkey := "Run".toList
     label := "HKLM\\Software\\Microsoft\\Windows\\CurrentVersion\\Run".toList },
   { hive := .hklm
     subkey := "Software\\Wow6432Node\\Microsoft\\Windows\\CurrentVersion\\Run".toList
     approvedSubkey := "Run32".toList
     label := "HKLM\\Software\\Wow6432Node\\...\\Run".toList }]

/-- The text shown for a value; the data are absent where they could not be read. -/
def valueText : Option RegValue → Text
  | some v =>
    if v.isText then Text.fromUtf16Lossy ((Bytes.utf16Units v.data).takeWhile (· ≠ 0))
    else Nat.toDigits 10 v.data.length ++ " bytes".toList
  | none => []

/-- `read_registry_values`. -/
def readRegistryValues : Option (RegKey fold) → List (Text × Text)
  | none => []
  | some key => key.enumerated.map fun n => (n.val, valueText (key.query n.val))

/-- `read_registry_binary`. -/
def readRegistryBinary : Option (RegKey fold) → Text → Option Bytes
  | none => fun _ => none
  | some key => key.approvals

/-! ### The startup folders -/

/-- The startup folder of the user, or that of all users. -/
inductive FolderScope where
  | user
  | common
  deriving DecidableEq

/-- The name of a folder in an id. -/
def FolderScope.display : FolderScope → Text
  | .user => "user".toList
  | .common => "common".toList

/-- The hive that says which of its files are switched off. -/
def FolderScope.hive : FolderScope → Hive
  | .user => .hkcu
  | .common => .hklm

/-- Where the startup folder lies below the directory of its variable. -/
def FolderScope.below : FolderScope → Text
  | .user => "\\Microsoft\\Windows\\Start Menu\\Programs\\Startup".toList
  | .common => "\\Microsoft\\Windows\\Start Menu\\Programs\\StartUp".toList

/-- The label of a folder. -/
def startupFolderLabel : FolderScope → Text
  | .user => "HKCU\\...Explorer\\StartupApproved\\StartupFolder".toList
  | .common => "HKLM\\...Explorer\\StartupApproved\\StartupFolder".toList

/-- The key below the approvals that both folders share by name. -/
def FOLDER_SUBKEY : Text := "StartupFolder".toList

/-- The name of a file in a directory. -/
abbrev FileName := { t : Text // '\\' ∉ t ∧ '\x00' ∉ t }

/-- What the list takes from the system besides the registry. -/
structure StartupHost where
  /-- `str::to_lowercase`. -/
  toLowercase : Text → Text
  resolvePublisher : Text → Option Text
  /-- `APPDATA` and `PROGRAMDATA`. -/
  env : FolderScope → Option Text
  /-- The files of a directory, unless it cannot be read. -/
  readDir : Text → Option (List FileName)

/-- The path of a folder. -/
def StartupHost.dirPath (host : StartupHost) (scope : FolderScope) : Option Text :=
  (host.env scope).map (· ++ scope.below)

/-- Shortcuts and programs are listed. -/
def isStartupFile (f : FileName) : Bool :=
  [".lnk", ".url", ".exe"].any fun ext => decide (ext.toList <:+ Text.toAsciiLowercase f.val)

/-- `Path::file_stem` of a file name. -/
def fileStem (f : Text) : Text :=
  match Text.rsplitOnce (· == '.') f with
  | some (stem, _) => if stem.isEmpty then f else stem
  | none => f

/-! ### The list -/

/-- What the id of a Run value begins with. -/
def REG_PREFIX : Text := "reg:".toList

/-- What the id of a file begins with. -/
def FOLDER_PREFIX : Text := "folder:".toList

section

variable (host : StartupHost) (reg : Registry fold)

/-- An item of the list. -/
def newItem (id name command location : Text) (enabled : Bool) : StartupItem where
  id := id
  name := name
  command := command
  location := location
  publisher := host.resolvePublisher command
  enabled := enabled
  impact := unmeasuredImpact enabled

/-- The items of one Run key. -/
def runItems (loc : RunLocation) : List StartupItem :=
  let approved := readRegistryBinary (reg loc.hive (approvedPath loc.approvedSubkey))
  (readRegistryValues (reg loc.hive loc.subkey)).map fun (name, command) =>
    newItem host (REG_PREFIX ++ (loc.label ++ ':' :: name)) name command loc.label
      (approvalSaysEnabled (approved name))

/-- The items of one startup folder. -/
def folderItems (scope : FolderScope) : List StartupItem :=
  match host.dirPath scope with
  | none => []
  | some dir =>
    match host.readDir dir with
    | none => []
    | some files =>
      let approved := readRegistryBinary (reg scope.hive (approvedPath FOLDER_SUBKEY))
      (files.filter isStartupFile).map fun f =>
        newItem host (FOLDER_PREFIX ++ (scope.display ++ ':' :: (dir ++ '\\' :: f.val)))
          (fileStem f.val) (dir ++ '\\' :: f.val) (startupFolderLabel scope)
          (approvalSaysEnabled (approved f.val))

/-- `out.sort_by_key(|a| a.name.to_lowercase())`. -/
def nameOrder (a b : StartupItem) : Ordering :=
  compare (host.toLowercase a.name) (host.toLowercase b.name)

/-- `list_startup`. -/
def listStartup : List StartupItem :=
  sortBy (nameOrder host)
    (LOCATIONS.flatMap (runItems host reg) ++
      [FolderScope.user, FolderScope.common].flatMap (folderItems host reg))

end

/-! ### The toggle -/

/-- Which calls of a toggle fail. -/
structure Faults where
  create : Option RegFault := none
  delete : Option RegFault := none
  set : Option RegFault := none

/-- `systemtime_to_filetime`, of the nanoseconds since 1970 if there are any. -/
def systemtimeToFiletime (nanos : Option ℕ) : ℕ :=
  (nanos.map fun n => n % 2 ^ 64 / 100).getD 0 + 116444736000000000

/-- The value that says since when an entry is switched off. -/
def disabledApprovalBlob (time : Option ℕ) : Bytes :=
  [0x03, 0, 0, 0] ++ Bytes.toLe 8 (systemtimeToFiletime time)

/-- Where the approval of an item is written: what the calls are named in errors, the key and the
name of the value. -/
structure Target where
  tag : Text
  hive : Hive
  path : Text
  name : Text
  deriving DecidableEq

/-- What errors about a folder's approvals add to the name of the call. -/
def FOLDER_TAG : Text := "(folder)".toList

/-- The target of `set_reg_startup_enabled`. -/
def regTarget (rest : Text) : Except TmError Target :=
  match Text.splitOnce (· == ':') rest with
  | none => .error (.platform "startup".toList "malformed item id".toList)
  | some (label, valueName) =>
    match LOCATIONS.find? fun l => l.label = label with
    | none => .error (.platform "startup".toList "unknown location".toList)
    | some loc => .ok ⟨[], loc.hive, approvedPath loc.approvedSubkey, valueName⟩

/-- What stands behind the last backslash. -/
def lastComponent (t : Text) : Text :=
  match Text.rsplitOnce (· == '\\') t with
  | some (_, name) => name
  | none => t

/-- The target of `set_folder_startup_enabled`. -/
def folderTarget (rest : Text) : Except TmError Target :=
  match Text.splitOnce (· == ':') rest with
  | none => .error (.platform "startup".toList "malformed folder id".toList)
  | some (scopeStr, tail) =>
    match [FolderScope.user, FolderScope.common].find? fun s => s.display = scopeStr with
    | none => .error (.platform "startup".toList "unknown folder scope".toList)
    | some scope =>
      if (lastComponent tail).isEmpty then
        .error (.platform "startup".toList "folder id without file name".toList)
      else .ok ⟨FOLDER_TAG, scope.hive, approvedPath FOLDER_SUBKEY, lastComponent tail⟩

/-- The target of `set_startup_enabled`. -/
def target (itemId : Text) : Except TmError Target :=
  match itemId.stripPrefix REG_PREFIX with
  | some rest => regTarget rest
  | none =>
    match itemId.stripPrefix FOLDER_PREFIX with
    | some rest => folderTarget rest
    | none => .error (.platform "startup".toList "malformed item id".toList)

/-- The value deleted or written, in a key made when it is missing. -/
def writeApproval (faults : Faults) (time : Option ℕ) (t : Target) (enabled : Bool)
    (reg : Registry fold) : Except TmError Unit × Registry fold :=
  match faults.create with
  | some f => (.error (.platform ("RegCreateKeyExW".toList ++ t.tag) f.display), reg)
  | none =>
    let key := (reg t.hive t.path).getD .empty
    if enabled then
      match faults.delete with
      | some f =>
        (.error (.platform ("RegDeleteValueW".toList ++ t.tag) f.display),
          reg.put t.hive t.path key)
      | none => (.ok (), reg.put t.hive t.path (key.erase (wstr t.name)))
    else
      match faults.set with
      | some f =>
        (.error (.platform ("RegSetValueExW".toList ++ t.tag) f.display), reg.put t.hive t.path key)
      | none =>
        (.ok (), reg.put t.hive t.path
          (key.insert (wstr t.name) ⟨REG_BINARY, disabledApprovalBlob time⟩))

/-- `set_startup_enabled`. -/
def setStartupEnabled (faults : Faults) (time : Option ℕ) (itemId : Text) (enabled : Bool)
    (reg : Registry fold) : Except TmError Unit × Registry fold :=
  match target itemId with
  | .error e => (.error e, reg)
  | .ok t => writeApproval faults time t enabled reg

end WinStartup

end Taskman
